import Lineage.Json.Token

set_option autoImplicit false

/-! # What can be read of a JSON text

A text that is not JSON may still be JSON up to some place, and what stands before that place decides
which complaint its reader makes first. So every text is read as a tree: arrays and objects that are
not properly closed are marked as torn, and a field whose value can not be read has the value
`broken`. Everything in the tree stands before the first fault.

The tree is grown by a machine that takes one token at a time and keeps the brackets still open on a
stack. -/

namespace Lineage

/-- A JSON text up to its first fault. -/
inductive JsonTree where
  | null
  | bool (value : Bool)
  | number (literal : NumberLiteral)
  /-- A string; without content if it has an escaped surrogate without its other half. -/
  | string (content : Option String)
  | array (items : List JsonTree) (closed : Bool)
  | object (fields : List (Option String × JsonTree)) (closed : Bool)
  /-- Here a value should stand. -/
  | broken

namespace JsonTree

/-! ## Trees without a fault -/

mutual

/-- Whether a tree is the tree of a JSON value, without a fault inside. -/
def isIntact : JsonTree → Bool
  | null => true
  | bool _ => true
  | number _ => true
  | string _ => true
  | array items closed => closed && allIntact items
  | object fields closed => closed && fieldsIntact fields
  | broken => false

/-- Whether all items of an array are intact. -/
def allIntact : List JsonTree → Bool
  | [] => true
  | item :: rest => isIntact item && allIntact rest

/-- Whether the values of all fields of an object are intact. -/
def fieldsIntact : List (Option String × JsonTree) → Bool
  | [] => true
  | (_, value) :: rest => isIntact value && fieldsIntact rest

end

/-! ## Growing a tree -/

/-- A bracket still open, with what it holds so far in reverse. -/
inductive Frame where
  | array (items : List JsonTree)
  /-- The key stands here while its value is awaited. -/
  | object (fields : List (Option String × JsonTree)) (key : Option (Option String))

/-- What may come next. -/
inductive Expected where
  | value
  /-- An item, or the end of an empty array. -/
  | itemOrEnd
  /-- A key, or the end of an empty object. -/
  | keyOrEnd
  | key
  | colon
  /-- A comma or the end of the innermost bracket. -/
  | commaOrEnd
  /-- Nothing: the whole value is there. -/
  | nothing
  /-- Nothing any more: there was a fault. -/
  | fault
deriving DecidableEq

/-- The machine: the open brackets, innermost first, the finished value and what may come next. -/
structure Grower where
  frames : List Frame
  result : Option JsonTree
  expected : Expected

namespace Grower

/-- In front of a value. -/
def initial : Grower := ⟨[], none, .value⟩

/-- Behind a fault. -/
def fail (grower : Grower) : Grower := { grower with expected := .fault }

/-- Behind a complete value. -/
def add (grower : Grower) (tree : JsonTree) : Grower :=
  match grower.frames with
  | [] => { grower with result := some tree, expected := .nothing }
  | .array items :: frames =>
    { grower with frames := .array (tree :: items) :: frames, expected := .commaOrEnd }
  | .object fields (some key) :: frames =>
    { grower with
      frames := .object ((key, tree) :: fields) none :: frames
      expected := .commaOrEnd }
  | .object _ none :: _ => grower.fail

/-- Behind an opening bracket. -/
def openFrame (grower : Grower) (frame : Frame) (expected : Expected) : Grower :=
  { grower with frames := frame :: grower.frames, expected := expected }

/-- Behind the first token of a value. -/
def beginValue (grower : Grower) : JsonToken → Grower
  | .null => grower.add .null
  | .bool value => grower.add (.bool value)
  | .number literal => grower.add (.number literal)
  | .string content => grower.add (.string content)
  | .openArray => grower.openFrame (.array []) .itemOrEnd
  | .openObject => grower.openFrame (.object [] none) .keyOrEnd
  | _ => grower.fail

/-- Behind a closing bracket for an array. -/
def closeArray (grower : Grower) : Grower :=
  match grower.frames with
  | .array items :: frames => { grower with frames := frames }.add (.array items.reverse true)
  | _ => grower.fail

/-- Behind a closing bracket for an object. -/
def closeObject (grower : Grower) : Grower :=
  match grower.frames with
  | .object fields none :: frames =>
    { grower with frames := frames }.add (.object fields.reverse true)
  | _ => grower.fail

/-- Behind the key of a field. -/
def beginField (grower : Grower) (key : Option String) : Grower :=
  match grower.frames with
  | .object fields none :: frames =>
    { grower with frames := .object fields (some key) :: frames, expected := .colon }
  | _ => grower.fail

/-- Behind a comma. -/
def continueFrame (grower : Grower) : Grower :=
  match grower.frames with
  | .array _ :: _ => { grower with expected := .value }
  | .object _ _ :: _ => { grower with expected := .key }
  | [] => grower.fail

/-- One step of the machine. -/
def step (grower : Grower) (token : JsonToken) : Grower :=
  match grower.expected, token with
  | .value, token => grower.beginValue token
  | .itemOrEnd, .closeArray => grower.closeArray
  | .itemOrEnd, token => grower.beginValue token
  | .keyOrEnd, .closeObject => grower.closeObject
  | .keyOrEnd, .string key => grower.beginField key
  | .key, .string key => grower.beginField key
  | .colon, .colon => { grower with expected := .value }
  | .commaOrEnd, .comma => grower.continueFrame
  | .commaOrEnd, .closeArray => grower.closeArray
  | .commaOrEnd, .closeObject => grower.closeObject
  | _, _ => grower.fail

/-- The tree of brackets left open around `inner`, what was read inside them. -/
def tear (inner : Option JsonTree) : List Frame → JsonTree
  | [] => inner.getD .broken
  | .array items :: frames => tear (some (.array (inner.toList ++ items).reverse false)) frames
  | .object fields none :: frames => tear (some (.object fields.reverse false)) frames
  | .object fields (some key) :: frames =>
    tear (some (.object ((key, inner.getD .broken) :: fields).reverse false)) frames

/-- The tree grown so far. -/
def tree (grower : Grower) : JsonTree :=
  match grower.result with
  | some tree => tree
  | none => tear none grower.frames

end Grower

/-- The tree of a text, and whether the text ends with it. -/
def ofText (t : Text) : JsonTree × Bool :=
  let grower := (JsonToken.ofText t).foldl Grower.step .initial
  (grower.tree, grower.expected = .nothing)

end JsonTree
end Lineage
