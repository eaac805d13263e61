import Lineage.Symbol.Kind
import Lineage.Text.Word

set_option autoImplicit false

/-! # Heads of declarations and members

What the start of a line tells: whether a class or interface is declared there, or a member, of which
kind, and where its name stands. -/

namespace Lineage

/-- The kind and the name announced by a line, with the byte offset of the name. -/
structure Head where
  kind : SymbolKind
  name : Text
  offset : Nat
deriving DecidableEq

namespace Head

/-- The words that may stand in front of `class` or `interface`. -/
def declarationModifiers : List Text :=
  ["export".toList, "default".toList, "declare".toList, "abstract".toList]

/-- The words that may stand in front of a member's name. -/
def memberModifiers : List Text :=
  ["public".toList, "private".toList, "protected".toList, "static".toList, "abstract".toList,
    "readonly".toList, "async".toList, "override".toList, "declare".toList]

/-- The kind that a keyword declares. -/
def declaredKind? (word : Text) : Option SymbolKind :=
  if word = "class".toList then some .classType
  else if word = "interface".toList then some .interfaceType
  else none

/-- The declaration that a text starting at `offset` announces: modifiers, `class` or `interface`, and
    a name. -/
def declaration? (offset : Nat) (t : Text) : Option Head :=
  let word := t.word
  let rest := t.nextWord
  let next := offset + (t.byteSize - rest.byteSize)
  if _ : t.word = [] then
    none
  else
    match declaredKind? word with
    | some kind => if rest.word.isEmpty then none else some ⟨kind, rest.word, next⟩
    | none => if declarationModifiers.contains word then declaration? next rest else none
termination_by t.length
decreasing_by
  apply Text.length_nextWord_lt
  assumption

/-- The kind of a member with a name, judged by what follows the name. -/
def memberKind? (name after : Text) : Option SymbolKind :=
  let rest := Text.trimStart (after.dropWhile fun c => c == '?' || c == '!')
  if name = "constructor".toList then
    some .constructor
  else
    match rest.head? with
    | none => some .property
    | some c =>
      if c == '(' || c == '<' then some .method
      else if c == ':' || c == '=' || c == ';' then some .property
      else none

/-- The member that a text starting at `offset` announces: modifiers and a name. A modifier that no
    word follows is itself the name. -/
def member? (offset : Nat) (t : Text) : Option Head :=
  let word := t.word
  let rest := t.nextWord
  let next := offset + (t.byteSize - rest.byteSize)
  if _ : t.word = [] then
    none
  else if memberModifiers.contains word && !rest.word.isEmpty then
    member? next rest
  else
    (memberKind? word t.afterWord).map fun kind => ⟨kind, word, offset⟩
termination_by t.length
decreasing_by
  apply Text.length_nextWord_lt
  assumption

end Head
end Lineage
