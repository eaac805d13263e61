import Lineage.Outline
import Lineage.Snapshot

set_option autoImplicit false

/-! # Snapshots of source files

A snapshot as a language server would report it for some source files: each is outlined, and each word
in the head of a declaration that names a declared type is linked to the types of that name. Types
of the same file hide those of other files. -/

namespace Lineage

/-- The language that the ending of a uri tells. -/
def languageOfUri (uri : String) : Option String :=
  if ".ts".toList.isSuffixOf uri.toList then some "typescript"
  else if ".js".toList.isSuffixOf uri.toList then some "javascript"
  else none

/-- The document of a source file. -/
def SourceDocument.ofSource (uri text : String) : SourceDocument :=
  ⟨uri, languageOfUri uri, text, outline text.toList⟩

/-- The names and places of all types that are outlined in some documents. -/
def declaredTypes (documents : List SourceDocument) : List (String × Location) :=
  documents.flatMap fun document =>
    document.symbols.map fun symbol => (symbol.name, ⟨document.uri, symbol.range⟩)

/-- The places of the types with a name, as seen from the document `uri`. -/
def targetsFor (declared : List (String × Location)) (name uri : String) : List Location :=
  let named := (declared.filter fun entry => entry.1 = name).map Prod.snd
  match named.filter fun location => location.uri = uri with
  | [] => named
  | own => own

/-- The words in the head of a declaration, from its start up to the first brace, but for the
    declaration's own name. -/
def headWords (map : LineMap) (symbol : DocumentSymbol) : List (Nat × Text) :=
  match map.offsetAt? symbol.range.start with
  | none => []
  | some start =>
    let rest := (map.source.drop? start).getD []
    let words := Text.wordsFrom start 0 (rest.takeWhile (· != '{'))
    let own := map.offsetAt? symbol.selection.start
    words.filter fun word => some word.1 ≠ own

/-- The definition links of a document. -/
def SourceDocument.links (declared : List (String × Location)) (document : SourceDocument) :
    List DefinitionLink :=
  let map := LineMap.ofText document.text.toList
  document.symbols.flatMap fun symbol =>
    (headWords map symbol).filterMap fun (offset, word) =>
      match targetsFor declared (String.ofList word) document.uri with
      | [] => none
      | targets => some ⟨document.uri, map.rangeBetween offset (offset + word.byteSize), targets⟩

/-- The snapshot of some source files, given as pairs of uri and text. -/
def Snapshot.ofSources (sources : List (String × String)) : Snapshot :=
  let documents := sources.map fun (uri, text) => SourceDocument.ofSource uri text
  let declared := declaredTypes documents
  ⟨documents, documents.flatMap (SourceDocument.links declared)⟩

end Lineage
