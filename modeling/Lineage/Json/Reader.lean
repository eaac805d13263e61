import Lineage.Json.Tree
import Lineage.Symbol.Kind

set_option autoImplicit false

/-! # Readers of JSON

A reader makes a value of the domain from a tree, or complains; of several faults, the one that stands
first in the text is reported. Arrays and objects may nest 127 deep where a reader looks into them:
readers of such values take the number of brackets that may still be opened. Values under unknown keys
are not looked into, and may nest as deep as they like.

A record is read from an object or from an array of its fields in order. `Record` describes the
fields; what happens to absent ones is part of the description. -/

namespace Lineage

/-! ## Complaints -/

/-- Why a text could not be read as a value. -/
inductive ReadError where
  | missingField (name : String)
  | duplicateField (name : String)
  /-- A word that is not among those expected. -/
  | unknownVariant (word : String) (expected : List String)
  /-- A number that no symbol kind has. -/
  | unknownKind (code : Nat)
  /-- The text is not JSON, nests too deep, or holds something of another type or a number that is too
      large. -/
  | malformed
deriving DecidableEq

namespace ReadError

/-- A name in quotes. -/
def quoted (name : String) : String := "`" ++ name ++ "`"

/-- A list of expected words. -/
def expectation : List String → String
  | [] => "there are no variants"
  | [word] => "expected " ++ quoted word
  | [first, second] => "expected " ++ quoted first ++ " or " ++ quoted second
  | words => "expected one of " ++ ", ".intercalate (words.map quoted)

/-- The wording of a complaint. -/
def message : ReadError → String
  | missingField name => "missing field " ++ quoted name
  | duplicateField name => "duplicate field " ++ quoted name
  | unknownVariant word expected =>
    "unknown variant " ++ quoted word ++ ", " ++ expectation expected
  | unknownKind code => SymbolKind.unknownMessage code
  | malformed => "malformed JSON"

end ReadError

/-- A reader of values from trees. -/
abbrev Reader (α : Type) := JsonTree → Except ReadError α

namespace Reader

/-! ## Simple values -/

/-- Reads nothing. -/
def refuse {α : Type} : Reader α := fun _ => .error .malformed

/-- A string. -/
def string : Reader String
  | .string (some content) => .ok content
  | _ => .error .malformed

/-- A natural number below a bound. -/
def natBelow (bound : Nat) : Reader Nat
  | .number literal =>
    match literal.toNat? with
    | some value => if value < bound then .ok value else .error .malformed
    | none => .error .malformed
  | _ => .error .malformed

/-- A 32-bit word. -/
def word : Reader UInt32 := fun tree => do
  return (← natBelow UInt32.size tree).toUInt32

/-- A value or `null`. -/
def nullable {α : Type} (reader : Reader α) : Reader (Option α)
  | .null => .ok none
  | tree => some <$> reader tree

/-- A value that is skipped; it has to be intact. -/
def skip : Reader Unit := fun tree =>
  if tree.isIntact then .ok () else .error .malformed

/-! ## Values with brackets -/

/-- A reader that opens a bracket, given the room that is left inside; it refuses if there is no
    room. -/
def opening {α : Type} (reader : Nat → Reader α) : Nat → Reader α
  | 0 => refuse
  | room + 1 => reader room

/-- The items of an array, once the bracket is open. -/
def items {α : Type} (item : Reader α) : Reader (List α)
  | .array items closed => do
    let values ← items.mapM item
    if closed then return values else throw .malformed
  | _ => .error .malformed

/-- An array. -/
def list {α : Type} (item : Nat → Reader α) : Nat → Reader (List α) :=
  opening fun room => items (item room)

/-- The meaning of a word. -/
def variant {α : Type} (variants : List (String × α)) (word : String) : Except ReadError α :=
  match variants.lookup word with
  | some value => .ok value
  | none => .error (.unknownVariant word (variants.map Prod.fst))

/-- One of several words, written as a string or as an object with the word as its only key and the
    value `null`. -/
def choice {α : Type} (variants : List (String × α)) (room : Nat) : Reader α
  | .string (some word) => variant variants word
  | .object fields closed =>
    match room, fields with
    | _ + 1, (some word, value) :: rest => do
      let meaning ← variant variants word
      match value, rest, closed with
      | .null, [], true => return meaning
      | _, _, _ => throw .malformed
    | _, _ => .error .malformed
  | _ => .error .malformed

end Reader

/-! ## Records -/

/-- What stands in for an absent field. -/
inductive Absence (α : Type) where
  /-- Nothing: it must not be absent. -/
  | required
  /-- This value, in an object; in an array it must not be absent. -/
  | whenNamed (value : α)
  /-- This value. -/
  | always (value : α)

/-- The fields of a record, in order, with the types of their values. -/
inductive Record : List Type → Type 1 where
  | done : Record []
  | field {α : Type} {αs : List Type} (name : String) (reader : Reader α) (absence : Absence α)
      (rest : Record αs) : Record (α :: αs)

namespace Record

/-- Values for all fields. -/
abbrev Row : List Type → Type
  | [] => Unit
  | α :: αs => α × Row αs

/-- Values for the fields read so far. -/
abbrev Slots : List Type → Type
  | [] => Unit
  | α :: αs => Option α × Slots αs

/-- No field read. -/
def noSlots : {αs : List Type} → Record αs → Slots αs
  | _, .done => ()
  | _, .field _ _ _ rest => (none, rest.noSlots)

/-- Reads the value of the field with a name; values under unknown names are skipped. -/
def store : {αs : List Type} → Record αs → (name : String) → JsonTree → Slots αs →
    Except ReadError (Slots αs)
  | _, .done, _, value, () => Reader.skip value
  | _, .field fieldName reader _ rest, name, value, (slot, slots) =>
    if fieldName = name then
      match slot with
      | some _ => .error (.duplicateField name)
      | none => do
        let value ← reader value
        return (some value, slots)
    else do
      let slots ← rest.store name value slots
      return (slot, slots)

/-- The record of the fields read from an object. -/
def complete : {αs : List Type} → Record αs → Slots αs → Except ReadError (Row αs)
  | _, .done, () => .ok ()
  | _, .field name _ absence rest, (slot, slots) => do
    let value ←
      match slot, absence with
      | some value, _ => .ok value
      | none, .required => .error (.missingField name)
      | none, .whenNamed value => .ok value
      | none, .always value => .ok value
    return (value, ← rest.complete slots)

/-- Reads the fields of an object in the order they are written. -/
def readFields {αs : List Type} (record : Record αs) (closed : Bool) :
    List (Option String × JsonTree) → Slots αs → Except ReadError (Row αs)
  | [], slots => if closed then record.complete slots else .error .malformed
  | (none, _) :: _, _ => .error .malformed
  | (some name, value) :: rest, slots => do
    let slots ← record.store name value slots
    readFields record closed rest slots

/-- Reads the fields from the items of an array. -/
def readItems : {αs : List Type} → Record αs → (closed : Bool) → List JsonTree →
    Except ReadError (Row αs)
  | _, .done, closed, items => if closed && items.isEmpty then .ok () else .error .malformed
  | _, .field _ reader _ rest, closed, item :: items => do
    let value ← reader item
    return (value, ← rest.readItems closed items)
  | _, .field _ _ (.always value) rest, true, [] => do
    return (value, ← rest.readItems true [])
  | _, .field _ _ _ _, _, [] => .error .malformed

/-- Reads a record, once its bracket is open. -/
def read {αs : List Type} {α : Type} (record : Record αs) (make : Row αs → α) : Reader α
  | .object fields closed => make <$> record.readFields closed fields record.noSlots
  | .array items closed => make <$> record.readItems closed items
  | _ => .error .malformed

end Record

/-! ## Whole texts -/

namespace Reader

/-- How many brackets may be open at once. -/
def roomOfText : Nat := 127

/-- Reads a value from a whole text. -/
def ofText {α : Type} (reader : Nat → Reader α) (t : String) : Except ReadError α := do
  let (tree, whole) := JsonTree.ofText t.toList
  let value ← reader roomOfText tree
  if whole then return value else throw .malformed

end Reader

/-! ## Values of any type -/

namespace Json

/-- The fields of an object with one more; a later value for a name replaces an earlier one. -/
def insertField (fields : List (String × Json)) (name : String) (value : Json) :
    List (String × Json) :=
  if fields.any fun field => field.1 == name then
    fields.map fun field => if field.1 == name then (name, value) else field
  else
    fields ++ [(name, value)]

/-- Reads any JSON value. -/
def read : (room : Nat) → Reader Json
  | _, .null => .ok .null
  | _, .bool value => .ok (.bool value)
  | _, .number literal =>
    match literal.value? with
    | some value => .ok (.number value)
    | none => .error .malformed
  | _, .string (some value) => .ok (.string value)
  | room + 1, .array items closed => do
    let values ← items.mapM (read room)
    if closed then return .array values else throw .malformed
  | room + 1, .object fields closed => do
    let fields ← fields.foldlM
      (fun done (name, value) =>
        match name with
        | some name => do return insertField done name (← read room value)
        | none => throw .malformed) []
    if closed then return .object fields else throw .malformed
  | _, _ => .error .malformed

end Json
end Lineage
