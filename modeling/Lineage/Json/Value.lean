import Lineage.Json.Number

set_option autoImplicit false

/-! # JSON values

Values of the JSON data format. The fields of an object are kept in the order they are written. -/

namespace Lineage

/-- A JSON value. -/
inductive Json where
  | null
  | bool (value : Bool)
  | number (value : JsonNumber)
  | string (value : String)
  | array (items : List Json)
  | object (fields : List (String × Json))

namespace Json

/-- A natural number as a value. -/
def nat (n : Nat) : Json := .number (.integer n)

/-- An optional value, `null` if it is absent. -/
def ofOption : Option Json → Json
  | some value => value
  | none => .null

end Json
end Lineage
