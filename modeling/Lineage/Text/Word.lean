import Lineage.Text.Alphabetic
import Lineage.Text.Blank
import Lineage.Text.Measure

set_option autoImplicit false

/-! # Words and the blanks around them

A word is a maximal run of identifier characters: letters of any script, `_`, `$` and the ASCII
digits. The functions here split a text at its front; what they take off and what they leave always
concatenate to the whole. -/

namespace Lineage.Text

/-- Whether an identifier can start with `c`. -/
def isIdentifierStart (c : Char) : Bool :=
  c == '_' || c == '$' || isAlphabetic c

/-- Whether an identifier can go on with `c`. -/
def isIdentifierPart (c : Char) : Bool :=
  isIdentifierStart c || c.isDigit

/-- The word at the front of a text, empty if another character stands there. -/
def word (t : Text) : Text :=
  t.takeWhile isIdentifierPart

/-- What follows the word at the front of a text. -/
def afterWord (t : Text) : Text :=
  t.dropWhile isIdentifierPart

/-- The blanks at the front of a text. -/
def leadingBlanks (t : Text) : Text :=
  t.takeWhile isBlank

/-- A text without the blanks at its front. -/
def trimStart (t : Text) : Text :=
  t.dropWhile isBlank

/-- A text without the blanks at its end. -/
def trimEnd (t : Text) : Text :=
  (t.reverse.dropWhile isBlank).reverse

/-- What follows the word at the front of a text and the blanks behind it. -/
def nextWord (t : Text) : Text :=
  trimStart (afterWord t)

theorem word_append_afterWord (t : Text) : word t ++ afterWord t = t :=
  List.takeWhile_append_dropWhile

theorem leadingBlanks_append_trimStart (t : Text) : leadingBlanks t ++ trimStart t = t :=
  List.takeWhile_append_dropWhile

theorem length_dropWhile_le {p : Char → Bool} (t : Text) : (t.dropWhile p).length ≤ t.length :=
  (List.dropWhile_sublist p).length_le

/-- Behind the longest front of one kind stands no character of that kind. -/
theorem takeWhile_dropWhile {p : Char → Bool} (t : Text) : (t.dropWhile p).takeWhile p = [] := by
  cases h : t.dropWhile p with
  | nil => rfl
  | cons c rest =>
    have hc := List.head?_dropWhile_not p t
    rw [h] at hc
    exact List.takeWhile_cons_of_neg (by simpa using hc)

/-- Taking a word off the front makes a text shorter. -/
theorem length_nextWord_lt {t : Text} (h : word t ≠ []) : (nextWord t).length < t.length := by
  match t with
  | [] => exact absurd rfl h
  | c :: rest =>
    by_cases hc : isIdentifierPart c
    · have h₁ : (trimStart (afterWord (c :: rest))).length ≤ (afterWord (c :: rest)).length :=
        length_dropWhile_le _
      have h₂ : (rest.dropWhile isIdentifierPart).length ≤ rest.length := length_dropWhile_le _
      simp only [afterWord, List.dropWhile_cons_of_pos hc, nextWord, List.length_cons] at h₁ ⊢
      omega
    · exact absurd (by simp [word, hc]) h

/-! ## Words and lines of a text -/

/-- The words of a text that start with an identifier's first character, with their offsets. The text
    starts at `offset`, and its first `skip` characters belong to a word already taken. -/
def wordsFrom : (offset : Nat) → (skip : Nat) → Text → List (Nat × Text)
  | _, _, [] => []
  | offset, skip + 1, c :: rest => wordsFrom (offset + c.utf8Size) skip rest
  | offset, 0, c :: rest =>
    if isIdentifierStart c then
      let found := word (c :: rest)
      (offset, found) :: wordsFrom (offset + c.utf8Size) (found.length - 1) rest
    else
      wordsFrom (offset + c.utf8Size) 0 rest

/-- The lines of a text, each with the line feed that ends it. -/
def lines : Text → List Text
  | [] => []
  | c :: rest =>
    if c == '\n' then
      [c] :: lines rest
    else
      match lines rest with
      | [] => [[c]]
      | line :: more => (c :: line) :: more

end Lineage.Text
