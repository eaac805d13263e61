import Lineage.LineMap
import Lineage.Symbol

set_option autoImplicit false

/-! # Declarations

A class or interface declaration with its members and their source text, and the key that tells
declarations apart: name, kind, document and exact range. -/

namespace Lineage

/-! ## Keys -/

/-- The identity of a declaration: asking again for the same declaration gives the same key. -/
structure DeclarationKey where
  name : String
  kind : SymbolKind
  uri : String
  range : Range
deriving DecidableEq

/-- A key in words, with line and column counted from one; `none` if one of them leaves the 32-bit
    range. -/
def DeclarationKey.describe (key : DeclarationKey) : Option String := do
  let line ← addChecked key.range.start.line 1
  let column ← addChecked key.range.start.character 1
  return key.kind.title ++ " " ++ key.name ++ " (" ++ key.uri ++ ":" ++ toString line.toNat ++ ":" ++
    toString column.toNat ++ ")"

/-! ## Members and declarations -/

/-- A member of a class or interface. -/
structure Member where
  name : String
  kind : SymbolKind
  uri : String
  range : Range
  /-- The source text of the range, modifiers included. -/
  text : String
deriving DecidableEq

/-- Where a member stands. -/
def Member.location (member : Member) : Location :=
  ⟨member.uri, member.range⟩

/-- A declaration as far as a type hierarchy needs it. -/
structure Declaration where
  name : String
  kind : SymbolKind
  uri : String
  range : Range
  /-- The source text of the range; its head names the supertypes. -/
  text : String
  /-- The members in source order. -/
  members : List Member
deriving DecidableEq

/-- The two kinds of declarations that a type hierarchy is made of. -/
inductive TypeKind where
  | classType
  | interfaceType
deriving DecidableEq

/-- The role of a symbol kind in a type hierarchy, if it has one. -/
def SymbolKind.typeKind? : SymbolKind → Option TypeKind
  | .classType => some .classType
  | .interfaceType => some .interfaceType
  | _ => none

namespace Declaration

/-- The key of a declaration. -/
def key (declaration : Declaration) : DeclarationKey :=
  ⟨declaration.name, declaration.kind, declaration.uri, declaration.range⟩

/-- Whether the declaration is an interface. -/
def isInterface (declaration : Declaration) : Bool :=
  declaration.kind = .interfaceType

/-- The first member with a name. -/
def member? (declaration : Declaration) (name : String) : Option Member :=
  declaration.members.find? fun member => member.name = name

/-- The declaration that a symbol of the document `uri` stands for, its direct children being the
    members; ranges outside the source have no text. -/
def ofSymbol (uri : String) (source : LineMap) (symbol : DocumentSymbol) : Declaration :=
  let textOf (range : Range) : String := String.ofList ((source.slice? range).getD [])
  { name := symbol.name
    kind := symbol.kind
    uri := uri
    range := symbol.range
    text := textOf symbol.range
    members := symbol.children.map fun child =>
      { name := child.name
        kind := child.kind
        uri := uri
        range := child.range
        text := textOf child.range } }

end Declaration
end Lineage
