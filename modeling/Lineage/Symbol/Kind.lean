set_option autoImplicit false

/-! # Symbol kinds

The kinds of the symbols in a document outline, with the numbers the language server protocol gives
them. Two kinds take part in a type hierarchy; four only group other symbols. -/

namespace Lineage

/-- The kind of a symbol in a document outline. -/
inductive SymbolKind where
  | file
  | moduleScope
  | namespaceScope
  | package
  | classType
  | method
  | property
  | field
  | constructor
  | enumeration
  | interfaceType
  | function
  | variableBinding
  | constant
  | string
  | number
  | boolean
  | array
  | object
  | key
  | null
  | enumMember
  | struct
  | event
  | operator
  | typeParameter
deriving DecidableEq

namespace SymbolKind

/-- The protocol number of a kind. -/
def code : SymbolKind → Nat
  | file => 1
  | moduleScope => 2
  | namespaceScope => 3
  | package => 4
  | classType => 5
  | method => 6
  | property => 7
  | field => 8
  | constructor => 9
  | enumeration => 10
  | interfaceType => 11
  | function => 12
  | variableBinding => 13
  | constant => 14
  | string => 15
  | number => 16
  | boolean => 17
  | array => 18
  | object => 19
  | key => 20
  | null => 21
  | enumMember => 22
  | struct => 23
  | event => 24
  | operator => 25
  | typeParameter => 26

/-- The kind with a protocol number. -/
def ofCode? : Nat → Option SymbolKind
  | 1 => some file
  | 2 => some moduleScope
  | 3 => some namespaceScope
  | 4 => some package
  | 5 => some classType
  | 6 => some method
  | 7 => some property
  | 8 => some field
  | 9 => some constructor
  | 10 => some enumeration
  | 11 => some interfaceType
  | 12 => some function
  | 13 => some variableBinding
  | 14 => some constant
  | 15 => some string
  | 16 => some number
  | 17 => some boolean
  | 18 => some array
  | 19 => some object
  | 20 => some key
  | 21 => some null
  | 22 => some enumMember
  | 23 => some struct
  | 24 => some event
  | 25 => some operator
  | 26 => some typeParameter
  | _ => none

/-- What is said of a number that no kind has. -/
def unknownMessage (code : Nat) : String :=
  "unknown symbol kind " ++ toString code

/-- The words for a kind in messages. -/
def title : SymbolKind → String
  | file => "file"
  | moduleScope => "module"
  | namespaceScope => "namespace"
  | package => "package"
  | classType => "class"
  | method => "method"
  | property => "property"
  | field => "field"
  | constructor => "constructor"
  | enumeration => "enum"
  | interfaceType => "interface"
  | function => "function"
  | variableBinding => "variable"
  | constant => "constant"
  | string => "string"
  | number => "number"
  | boolean => "boolean"
  | array => "array"
  | object => "object"
  | key => "key"
  | null => "null"
  | enumMember => "enum member"
  | struct => "struct"
  | event => "event"
  | operator => "operator"
  | typeParameter => "type parameter"

/-- Whether symbols of this kind take part in a type hierarchy. -/
def isType : SymbolKind → Bool
  | classType | interfaceType => true
  | _ => false

theorem isType_iff {kind : SymbolKind} :
    kind.isType = true ↔ kind = .classType ∨ kind = .interfaceType := by
  cases kind <;> decide

/-- Whether symbols of this kind only group other symbols. -/
def isContainer : SymbolKind → Bool
  | file | moduleScope | namespaceScope | package => true
  | _ => false

theorem ofCode?_code (kind : SymbolKind) : ofCode? kind.code = some kind := by
  cases kind <;> rfl

end SymbolKind
end Lineage
