import Lineage.Symbol
import Lineage.Wire.Position

set_option autoImplicit false

/-! # Document symbols as JSON

A symbol kind is written as its protocol number. A symbol without detail is written without the field
`detail`, and one without children without the field `children`; both may be absent when read. -/

namespace Lineage

namespace SymbolKind

/-- A kind as its number. -/
def toJson (kind : SymbolKind) : Json := .nat kind.code

/-- Reads a kind. A number below 256 that no kind has gets a complaint of its own. -/
def read : Reader SymbolKind := fun tree => do
  let code ← Reader.natBelow 256 tree
  match ofCode? code with
  | some kind => return kind
  | none => throw (.unknownKind code)

end SymbolKind

namespace DocumentSymbol

mutual

/-- A symbol as an object. -/
def toJson : DocumentSymbol → Json
  | ⟨name, detail, kind, range, selection, children⟩ =>
    .object <|
      [("name", .string name)] ++
      (match detail with
        | some detail => [("detail", .string detail)]
        | none => []) ++
      [("kind", kind.toJson), ("range", range.toJson), ("selectionRange", selection.toJson)] ++
      (match children with
        | [] => []
        | children => [("children", .array (allToJson children))])

/-- Symbols as objects. -/
def allToJson : List DocumentSymbol → List Json
  | [] => []
  | symbol :: rest => toJson symbol :: allToJson rest

end

/-- The fields of a symbol, given the reader of its children. -/
def record (room : Nat) (children : Reader (List DocumentSymbol)) :
    Record [String, Option String, SymbolKind, Range, Range, List DocumentSymbol] :=
  .field "name" Reader.string .required <|
  .field "detail" (Reader.nullable Reader.string) (.always none) <|
  .field "kind" SymbolKind.read .required <|
  .field "range" (Range.read room) .required <|
  .field "selectionRange" (Range.read room) .required <|
  .field "children" children (.always []) .done

/-- The symbol of a row of fields. -/
def ofRow : Record.Row [String, Option String, SymbolKind, Range, Range, List DocumentSymbol] →
    DocumentSymbol
  | (name, detail, kind, range, selection, children, ()) =>
    ⟨name, detail, kind, range, selection, children⟩

/-- Reads a symbol; each level of children takes the room of two brackets. -/
def read : Nat → Reader DocumentSymbol
  | 0 => Reader.refuse
  | 1 => (record 0 Reader.refuse).read ofRow
  | room + 2 => (record (room + 1) (Reader.items (read room))).read ofRow

end DocumentSymbol
end Lineage
