import Lineage.Declaration
import Lineage.Text.Numeric
import Lineage.Text.Word

set_option autoImplicit false

/-! # Modifiers of a member

A member carries a modifier such as `abstract` if its text holds the modifier as a token: after no
letter, number, `_` or `$`, and in front of a blank. Occurrences are looked for from left to right
and do not overlap: behind an occurrence that is no token the search goes on after its last
character. -/

namespace Lineage

namespace Text

/-- Whether a token can not start directly after `c`. -/
def joinsToken (c : Char) : Bool :=
  isAlphabetic c || isNumeric c || c == '_' || c == '$'

/-- Whether the text `before` a place leaves room for a token to start there. -/
def startsToken (before : Option Char) : Bool :=
  !before.any joinsToken

/-- Whether a text starts with a blank. -/
def startsBlank (t : Text) : Bool :=
  t.head?.any isBlank

/-- Whether `token` occurs as a token followed by a blank in a text that stands after the character
    `before` and whose first `skip` characters belong to an occurrence already looked at. -/
def hasTokenFrom (token : Text) : (before : Option Char) → (skip : Nat) → Text → Bool
  | _, _, [] => false
  | _, skip + 1, c :: rest => hasTokenFrom token (some c) skip rest
  | before, 0, c :: rest =>
    if token.isPrefixOf (c :: rest) then
      startsToken before && startsBlank ((c :: rest).drop token.length) ||
        hasTokenFrom token (some c) (token.length - 1) rest
    else
      hasTokenFrom token (some c) 0 rest

/-- Whether `token` occurs as a token followed by a blank. -/
def hasToken (token t : Text) : Bool :=
  hasTokenFrom token none 0 t

end Text

/-- Whether the source of a member carries a modifier. -/
def Member.hasModifier (member : Member) (modifier : String) : Bool :=
  Text.hasToken modifier.toList member.text.toList

end Lineage
