import Lineage.Json.Value

set_option autoImplicit false

/-! # JSON tokens

The characters of a JSON text, grouped into brackets, marks, words, numbers and strings by a machine
that takes one character at a time. The first character that fits nowhere gives the token `invalid`,
and nothing is read behind it.

A string may hold escapes for lone halves of surrogate pairs. Such a string is a proper token, but it
has no content. -/

namespace Lineage

/-- A token of a JSON text. -/
inductive JsonToken where
  | openObject
  | closeObject
  | openArray
  | closeArray
  | colon
  | comma
  | null
  | bool (value : Bool)
  | number (literal : NumberLiteral)
  /-- A string; without content if it has an escaped surrogate without its other half. -/
  | string (content : Option String)
  /-- Here the text stops to be JSON. -/
  | invalid
deriving DecidableEq

namespace JsonToken

/-! ## Strings in progress -/

/-- The content of a string read so far. -/
structure Draft where
  /-- The characters in reverse; `none` after a surrogate without its other half. -/
  content : Option Text
  /-- The first half of a surrogate pair whose second half comes next. -/
  high : Option Nat

namespace Draft

/-- Nothing read. -/
def empty : Draft := ⟨some [], none⟩

/-- One character more. -/
def push (draft : Draft) (c : Char) : Draft :=
  match draft.high with
  | some _ => ⟨none, none⟩
  | none => ⟨draft.content.map (c :: ·), none⟩

/-- One escaped UTF-16 code unit more. -/
def pushUnit (draft : Draft) (unit : Nat) : Draft :=
  if 0xDC00 ≤ unit && unit < 0xE000 then
    match draft.high with
    | some high =>
      let c := Char.ofNat (0x10000 + (high - 0xD800) * 0x400 + (unit - 0xDC00))
      ⟨draft.content.map (c :: ·), none⟩
    | none => ⟨none, none⟩
  else if 0xD800 ≤ unit && unit < 0xDC00 then
    match draft.high with
    | some _ => ⟨none, none⟩
    | none => { draft with high := some unit }
  else
    draft.push (Char.ofNat unit)

/-- The token of a finished string. -/
def token (draft : Draft) : JsonToken :=
  match draft.high with
  | some _ => .string none
  | none => .string (draft.content.map fun content => String.ofList content.reverse)

end Draft

/-! ## The machine -/

/-- What the machine is in the middle of. -/
inductive Mode where
  | between
  /-- A word with this letter, and then these, to come. -/
  | word (letter : Char) (letters : Text) (token : JsonToken)
  | inString (draft : Draft)
  /-- Behind a backslash. -/
  | escape (draft : Draft)
  /-- In the hexadecimal digits of an escape, with `left + 1` of them to come. -/
  | unit (draft : Draft) (left : Nat) (value : Nat)
  /-- Behind a minus sign. -/
  | minus
  /-- Behind a leading zero. -/
  | zero (negative : Bool)
  /-- In the whole part of a number, with its digits in reverse. -/
  | whole (negative : Bool) (digits : Text)
  /-- Behind the point of a number. -/
  | point (literal : NumberLiteral)
  /-- In the fraction of a number, with its digits in reverse. -/
  | fraction (literal : NumberLiteral) (digits : Text)
  /-- Behind the exponent mark of a number. -/
  | mark (literal : NumberLiteral)
  /-- Behind the sign of an exponent. -/
  | sign (literal : NumberLiteral) (negative : Bool)
  /-- In the exponent of a number. -/
  | exponent (literal : NumberLiteral) (negative : Bool) (value : Nat)
  /-- Behind an invalid token. -/
  | stopped

/-- The value of a hexadecimal digit. -/
def hexDigit? (c : Char) : Option Nat :=
  if c.isDigit then some (digitValue c)
  else if 'a' ≤ c && c ≤ 'f' then some (c.toNat - 'a'.toNat + 10)
  else if 'A' ≤ c && c ≤ 'F' then some (c.toNat - 'A'.toNat + 10)
  else none

/-- The character that a backslash and `c` stand for. -/
def escaped? : Char → Option Char
  | '"' => some '"'
  | '\\' => some '\\'
  | '/' => some '/'
  | 'b' => some '\x08'
  | 'f' => some '\x0c'
  | 'n' => some '\n'
  | 'r' => some '\r'
  | 't' => some '\t'
  | _ => none

/-- The tokens completed by a character and the mode behind it. -/
abbrev Step := List JsonToken × Mode

/-- The step into an invalid token. -/
def fail : Step := ([.invalid], .stopped)

/-- The step with a character between tokens. -/
def start (c : Char) : Step :=
  match c with
  | ' ' | '\n' | '\t' | '\r' => ([], .between)
  | '{' => ([.openObject], .between)
  | '}' => ([.closeObject], .between)
  | '[' => ([.openArray], .between)
  | ']' => ([.closeArray], .between)
  | ':' => ([.colon], .between)
  | ',' => ([.comma], .between)
  | 'n' => ([], .word 'u' ['l', 'l'] .null)
  | 't' => ([], .word 'r' ['u', 'e'] (.bool true))
  | 'f' => ([], .word 'a' ['l', 's', 'e'] (.bool false))
  | '"' => ([], .inString .empty)
  | '-' => ([], .minus)
  | '0' => ([], .zero false)
  | _ => if c.isDigit then ([], .whole false [c]) else fail

/-- The literal of a number without fraction and exponent, from its digits in reverse. -/
def wholeLiteral (negative : Bool) (digits : Text) : NumberLiteral :=
  ⟨negative, digits.reverse, [], none⟩

/-- A literal with a fraction, from its digits in reverse. -/
def withFraction (literal : NumberLiteral) (digits : Text) : NumberLiteral :=
  { literal with fraction := digits.reverse }

/-- A literal with an exponent. -/
def withExponent (literal : NumberLiteral) (negative : Bool) (value : Nat) : NumberLiteral :=
  { literal with exponent := some (if negative then -value else value) }

/-- The step with the character behind a complete number. -/
def afterNumber (literal : NumberLiteral) (c : Char) : Step :=
  let (tokens, mode) := start c
  (.number literal :: tokens, mode)

/-- The step with a character behind the fraction of a number. -/
def afterFraction (literal : NumberLiteral) (c : Char) : Step :=
  if c == 'e' || c == 'E' then ([], .mark literal) else afterNumber literal c

/-- The step with a character behind the whole part of a number. -/
def afterWhole (literal : NumberLiteral) (c : Char) : Step :=
  if c == '.' then ([], .point literal) else afterFraction literal c

/-- One step of the machine. -/
def step : Mode → Char → Step
  | .between, c => start c
  | .word letter letters token, c =>
    if c != letter then fail
    else
      match letters with
      | [] => ([token], .between)
      | next :: letters => ([], .word next letters token)
  | .inString draft, c =>
    if c == '"' then ([draft.token], .between)
    else if c == '\\' then ([], .escape draft)
    else if c.toNat < 0x20 then fail
    else ([], .inString (draft.push c))
  | .escape draft, c =>
    if c == 'u' then ([], .unit draft 3 0)
    else
      match escaped? c with
      | some plain => ([], .inString (draft.push plain))
      | none => fail
  | .unit draft left value, c =>
    match hexDigit? c with
    | none => fail
    | some d =>
      let value := 16 * value + d
      match left with
      | 0 => ([], .inString (draft.pushUnit value))
      | left + 1 => ([], .unit draft left value)
  | .minus, c =>
    if c == '0' then ([], .zero true)
    else if c.isDigit then ([], .whole true [c])
    else fail
  | .zero negative, c =>
    if c.isDigit then fail else afterWhole (wholeLiteral negative ['0']) c
  | .whole negative digits, c =>
    if c.isDigit then ([], .whole negative (c :: digits))
    else afterWhole (wholeLiteral negative digits) c
  | .point literal, c => if c.isDigit then ([], .fraction literal [c]) else fail
  | .fraction literal digits, c =>
    if c.isDigit then ([], .fraction literal (c :: digits))
    else afterFraction (withFraction literal digits) c
  | .mark literal, c =>
    if c == '+' then ([], .sign literal false)
    else if c == '-' then ([], .sign literal true)
    else if c.isDigit then ([], .exponent literal false (digitValue c))
    else fail
  | .sign literal negative, c =>
    if c.isDigit then ([], .exponent literal negative (digitValue c)) else fail
  | .exponent literal negative value, c =>
    if c.isDigit then ([], .exponent literal negative (10 * value + digitValue c))
    else afterNumber (withExponent literal negative value) c
  | .stopped, _ => ([], .stopped)

/-- The tokens completed by the end of the text. -/
def finish : Mode → List JsonToken
  | .between => []
  | .zero negative => [.number (wholeLiteral negative ['0'])]
  | .whole negative digits => [.number (wholeLiteral negative digits)]
  | .fraction literal digits => [.number (withFraction literal digits)]
  | .exponent literal negative value => [.number (withExponent literal negative value)]
  | .stopped => []
  | _ => [.invalid]

/-- The tokens so far, in reverse, and the mode behind one more character. -/
def advance (state : List JsonToken × Mode) (c : Char) : List JsonToken × Mode :=
  let (tokens, mode) := step state.2 c
  (tokens.reverse ++ state.1, mode)

/-- The tokens of a text. -/
def ofText (t : Text) : List JsonToken :=
  let (tokens, mode) := t.foldl advance ([], .between)
  tokens.reverse ++ finish mode

end JsonToken
end Lineage
