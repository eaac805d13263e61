import Lineage.Json.Value

set_option autoImplicit false

/-! # Writing JSON

Two ways to write a value: `compact` without any blanks, and `pretty` with one item per line,
indented by two spaces a level. Strings are written as they are, but for the quote, the backslash and
the control characters below the space. -/

namespace Lineage

namespace Json

/-! ## Strings -/

/-- A hexadecimal digit. -/
def hexDigit (n : Nat) : Char :=
  Nat.digitChar n

/-- A character inside a string. -/
def escape (c : Char) : Text :=
  match c with
  | '"' => ['\\', '"']
  | '\\' => ['\\', '\\']
  | '\x08' => ['\\', 'b']
  | '\x0c' => ['\\', 'f']
  | '\n' => ['\\', 'n']
  | '\r' => ['\\', 'r']
  | '\t' => ['\\', 't']
  | _ =>
    if c.toNat < 0x20 then
      ['\\', 'u', '0', '0', hexDigit (c.toNat / 16), hexDigit (c.toNat % 16)]
    else
      [c]

/-- A string in quotes. -/
def quote (s : String) : Text :=
  '"' :: (s.toList.flatMap escape ++ ['"'])

/-! ## Without blanks -/

mutual

/-- A value without blanks. -/
def compact : Json → Text
  | null => ['n', 'u', 'l', 'l']
  | bool true => ['t', 'r', 'u', 'e']
  | bool false => ['f', 'a', 'l', 's', 'e']
  | number value => value.render
  | string value => quote value
  | array items => '[' :: (compactItems items ++ [']'])
  | object fields => '{' :: (compactFields fields ++ ['}'])

/-- Items with commas between them. -/
def compactItems : List Json → Text
  | [] => []
  | [item] => compact item
  | item :: rest => compact item ++ ',' :: compactItems rest

/-- Fields with commas between them. -/
def compactFields : List (String × Json) → Text
  | [] => []
  | [(name, value)] => quote name ++ ':' :: compact value
  | (name, value) :: rest => quote name ++ ':' :: (compact value ++ ',' :: compactFields rest)

end

/-- A value without blanks, as a string. -/
def toText (value : Json) : String :=
  String.ofList value.compact

/-! ## With one item per line -/

/-- A line break and the indentation of a level. -/
def newline (level : Nat) : Text :=
  '\n' :: List.replicate (2 * level) ' '

mutual

/-- A value with one item per line, inside brackets at a level. -/
def pretty (level : Nat) : Json → Text
  | null => ['n', 'u', 'l', 'l']
  | bool true => ['t', 'r', 'u', 'e']
  | bool false => ['f', 'a', 'l', 's', 'e']
  | number value => value.render
  | string value => quote value
  | array [] => ['[', ']']
  | array items =>
    '[' :: (prettyItems (level + 1) items ++ newline level ++ [']'])
  | object [] => ['{', '}']
  | object fields =>
    '{' :: (prettyFields (level + 1) fields ++ newline level ++ ['}'])

/-- Items on lines of their own with commas between them. -/
def prettyItems (level : Nat) : List Json → Text
  | [] => []
  | [item] => newline level ++ pretty level item
  | item :: rest => newline level ++ pretty level item ++ ',' :: prettyItems level rest

/-- Fields on lines of their own with commas between them. -/
def prettyFields (level : Nat) : List (String × Json) → Text
  | [] => []
  | [(name, value)] => newline level ++ quote name ++ ':' :: ' ' :: pretty level value
  | (name, value) :: rest =>
    newline level ++ quote name ++ ':' :: ' ' :: (pretty level value ++ ',' :: prettyFields level rest)

end

/-- A value with one item per line, as a string. -/
def toPrettyText (value : Json) : String :=
  String.ofList (value.pretty 0)

end Json
end Lineage
