import Lineage.Snapshot
import Lineage.Wire.Symbol

set_option autoImplicit false

/-! # Snapshots as JSON

A document of unknown language is written without the field `languageId`. When read, that field and
the outline may be absent, and so may the documents and the definition links of a snapshot. -/

namespace Lineage

namespace SourceDocument

/-- A document as an object. -/
def toJson (document : SourceDocument) : Json :=
  .object <|
    [("uri", .string document.uri)] ++
    (match document.languageId with
      | some language => [("languageId", .string language)]
      | none => []) ++
    [("text", .string document.text),
      ("symbols", .array (DocumentSymbol.allToJson document.symbols))]

/-- The fields of a document. -/
def record (room : Nat) : Record [String, Option String, String, List DocumentSymbol] :=
  .field "uri" Reader.string .required <|
  .field "languageId" (Reader.nullable Reader.string) (.always none) <|
  .field "text" Reader.string .required <|
  .field "symbols" (Reader.list DocumentSymbol.read room) (.always []) .done

/-- Reads a document. -/
def read : Nat → Reader SourceDocument :=
  Reader.opening fun room =>
    (record room).read fun (uri, languageId, text, symbols, ()) => ⟨uri, languageId, text, symbols⟩

end SourceDocument

namespace DefinitionLink

/-- A link as an object. -/
def toJson (link : DefinitionLink) : Json :=
  .object [("uri", .string link.uri), ("range", link.range.toJson),
    ("targets", .array (link.targets.map Location.toJson))]

/-- The fields of a link. -/
def record (room : Nat) : Record [String, Range, List Location] :=
  .field "uri" Reader.string .required <|
  .field "range" (Range.read room) .required <|
  .field "targets" (Reader.list Location.read room) .required .done

/-- Reads a link. -/
def read : Nat → Reader DefinitionLink :=
  Reader.opening fun room => (record room).read fun (uri, range, targets, ()) => ⟨uri, range, targets⟩

end DefinitionLink

namespace Snapshot

/-- A snapshot as an object. -/
def toJson (snapshot : Snapshot) : Json :=
  .object [("documents", .array (snapshot.documents.map SourceDocument.toJson)),
    ("definitions", .array (snapshot.definitions.map DefinitionLink.toJson))]

/-- The fields of a snapshot. -/
def record (room : Nat) : Record [List SourceDocument, List DefinitionLink] :=
  .field "documents" (Reader.list SourceDocument.read room) (.always []) <|
  .field "definitions" (Reader.list DefinitionLink.read room) (.always []) .done

/-- Reads a snapshot. -/
def read : Nat → Reader Snapshot :=
  Reader.opening fun room => (record room).read fun (documents, definitions, ()) =>
    ⟨documents, definitions⟩

/-- A snapshot as JSON text. -/
def toText (snapshot : Snapshot) : String := snapshot.toJson.toText

/-- Reads a snapshot from JSON text. -/
def ofText (text : String) : Except ReadError Snapshot := Reader.ofText read text

end Snapshot
end Lineage
