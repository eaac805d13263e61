import Lineage.Json.Printer
import Lineage.Json.Token

set_option autoImplicit false

/-! # The tokens of written values

A value without doubles, written without blanks, is cut into the tokens that it is made of
(`ofText_compact`): brackets, marks and words one by one, each string with its own content and each
integer with its digits.

The machine is taken from a mode on (`tokensFrom`), so that each part of a text can be read with the
real rest behind it. Only a number needs to know that rest: it goes on up to the first character that
is no part of a number (`EndsNumber`). -/

namespace Lineage

namespace JsonToken

/-! ## The machine from a mode on -/

/-- The tokens of a text read in a mode. -/
def tokensFrom : Mode → Text → List JsonToken
  | mode, [] => finish mode
  | mode, c :: rest => (step mode c).1 ++ tokensFrom (step mode c).2 rest

theorem foldl_advance (tokens : List JsonToken) (mode : Mode) (t : Text) :
    (t.foldl advance (tokens, mode)).1.reverse ++ finish (t.foldl advance (tokens, mode)).2 =
      tokens.reverse ++ tokensFrom mode t := by
  induction t generalizing tokens mode with
  | nil => rfl
  | cons c rest ih =>
    rw [List.foldl_cons]
    show ((rest.foldl advance ((step mode c).1.reverse ++ tokens, (step mode c).2)).1.reverse ++
      finish (rest.foldl advance ((step mode c).1.reverse ++ tokens, (step mode c).2)).2) = _
    rw [ih, tokensFrom]
    simp

theorem ofText_eq_tokensFrom (t : Text) : ofText t = tokensFrom .between t := by
  have h := foldl_advance [] .between t
  rw [List.reverse_nil, List.nil_append] at h
  exact h

/-! ## Strings -/

theorem hexDigit?_hexDigit : ∀ n < 16, hexDigit? (Json.hexDigit n) = some n := by
  decide

/-- The draft of the characters read so far, in reverse. -/
def Draft.of (content : Text) : Draft := ⟨some content, none⟩

/-- A character is read back, escaped or not. -/
theorem tokensFrom_escape (content : Text) (c : Char) (rest : Text) :
    tokensFrom (.inString (.of content)) (Json.escape c ++ rest) =
      tokensFrom (.inString (.of (c :: content))) rest := by
  unfold Json.escape
  split
  · rfl
  · rfl
  · rfl
  · rfl
  · rfl
  · rfl
  · rfl
  · next hquote hbackslash _ _ _ _ _ =>
    split
    · next hcontrol =>
      have hhigh := hexDigit?_hexDigit (c.toNat / 16) (by omega)
      have hlow := hexDigit?_hexDigit (c.toNat % 16) (by omega)
      have hzero : hexDigit? '0' = some 0 := by decide
      have hvalue : 16 * (c.toNat / 16) + c.toNat % 16 = c.toNat := Nat.div_add_mod _ _
      have hunit : (Draft.of content).pushUnit c.toNat = .of (c :: content) := by
        have hsurrogate : ¬ 0xDC00 ≤ c.toNat ∧ ¬ 0xD800 ≤ c.toNat := by omega
        simp [Draft.pushUnit, hsurrogate, Draft.push, Draft.of]
      simp [tokensFrom, step, hzero, hhigh, hlow, hvalue, hunit]
    · next hplain =>
      have hquote' : ¬ c = '"' := hquote
      have hbackslash' : ¬ c = '\\' := hbackslash
      simp [tokensFrom, step, hquote', hbackslash', hplain, Draft.push, Draft.of]

theorem tokensFrom_content (content : Text) (t rest : Text) :
    tokensFrom (.inString (.of content)) (t.flatMap Json.escape ++ '"' :: rest) =
      .string (some (String.ofList (content.reverse ++ t))) :: tokensFrom .between rest := by
  induction t generalizing content with
  | nil => simp [tokensFrom, step, Draft.token, Draft.of]
  | cons c t ih =>
    rw [List.flatMap_cons, List.append_assoc, tokensFrom_escape, ih]
    simp

/-- A quoted string is one token, with the content that was quoted. -/
theorem tokensFrom_quote (s : String) (rest : Text) :
    tokensFrom .between (Json.quote s ++ rest) =
      .string (some s) :: tokensFrom .between rest := by
  have h := tokensFrom_content [] s.toList rest
  simpa [Json.quote, tokensFrom, step, start, Draft.of, Draft.empty] using h

/-! ## Numbers -/

/-- What stands behind a number is no part of it. -/
def EndsNumber (rest : Text) : Prop :=
  ∀ c ∈ rest.head?, c.isDigit = false ∧ c ≠ '.' ∧ c ≠ 'e' ∧ c ≠ 'E'

/-- In front of the first digit of a number. -/
def signMode : Bool → Mode
  | false => .between
  | true => .minus

/-- A number ends with what stands behind it. -/
theorem tokensFrom_whole_end {negative : Bool} {digits rest : Text} (h : EndsNumber rest) :
    tokensFrom (.whole negative digits) rest =
      .number (wholeLiteral negative digits) :: tokensFrom .between rest := by
  cases rest with
  | nil => rfl
  | cons c rest =>
    obtain ⟨hdigit, hpoint, hmark, hmark'⟩ := h c rfl
    simp [tokensFrom, step, hdigit, afterWhole, hpoint, afterFraction, hmark, hmark', afterNumber]

theorem tokensFrom_zero_end {negative : Bool} {rest : Text} (h : EndsNumber rest) :
    tokensFrom (.zero negative) rest =
      .number (wholeLiteral negative ['0']) :: tokensFrom .between rest := by
  cases rest with
  | nil => rfl
  | cons c rest =>
    obtain ⟨hdigit, hpoint, hmark, hmark'⟩ := h c rfl
    simp [tokensFrom, step, hdigit, afterWhole, hpoint, afterFraction, hmark, hmark', afterNumber]

theorem tokensFrom_whole {negative : Bool} {digits more rest : Text}
    (hmore : ∀ c ∈ more, c.isDigit = true) (h : EndsNumber rest) :
    tokensFrom (.whole negative digits) (more ++ rest) =
      .number (wholeLiteral negative (more.reverse ++ digits)) :: tokensFrom .between rest := by
  induction more generalizing digits with
  | nil => exact tokensFrom_whole_end h
  | cons c more ih =>
    have hc := hmore c List.mem_cons_self
    have hnext := @ih (c :: digits) fun c' hc' => hmore c' (List.mem_cons_of_mem _ hc')
    simpa [tokensFrom, step, hc] using hnext

/-- The decimal digits of a number do not start with a zero, but for zero itself. -/
theorem toDigits_head (n : Nat) : (n = 0 ∧ Nat.toDigits 10 n = ['0']) ∨
    ∃ c more, Nat.toDigits 10 n = c :: more ∧ c ≠ '0' ∧ c.isDigit = true ∧
      ∀ c' ∈ more, c'.isDigit = true := by
  have hdigit : ∀ c ∈ Nat.toDigits 10 n, c.isDigit = true :=
    fun c hc => Nat.isDigit_of_mem_toDigits (by omega) (by omega) hc
  suffices hhead : (n = 0 ∧ Nat.toDigits 10 n = ['0']) ∨
      ∃ c more, Nat.toDigits 10 n = c :: more ∧ c ≠ '0' by
    rcases hhead with hzero | ⟨c, more, heq, hne⟩
    · exact .inl hzero
    · rw [heq] at hdigit
      exact .inr ⟨c, more, heq, hne, hdigit c List.mem_cons_self,
        fun c' hc' => hdigit c' (List.mem_cons_of_mem _ hc')⟩
  clear hdigit
  induction n using Nat.strongRecOn with
  | ind n ih =>
    by_cases hsmall : n < 10
    · rw [Nat.toDigits_of_lt_base hsmall]
      by_cases hzero : n = 0
      · exact .inl ⟨hzero, by rw [hzero]; rfl⟩
      · exact .inr ⟨n.digitChar, [], rfl, fun h => hzero (Nat.digitChar_eq_zero.mp h)⟩
    · rw [Nat.toDigits_of_base_le (by omega) (by omega)]
      rcases ih (n / 10) (by omega) with ⟨hzero, -⟩ | ⟨c, more, heq, hne⟩
      · omega
      · exact .inr ⟨c, more ++ [(n % 10).digitChar], by rw [heq]; rfl, hne⟩

theorem step_signMode (negative : Bool) {c : Char} (hc : c.isDigit = true) (hne : c ≠ '0') :
    step (signMode negative) c = ([], .whole negative [c]) := by
  cases negative with
  | true => simp [signMode, step, hc, hne]
  | false =>
    simp only [signMode, step, start]
    -- no mark and no letter is a digit
    split <;> first | exact absurd hc (by decide) | exact absurd rfl hne | exact if_pos hc

/-- The digits of a number are one token, with its sign. -/
theorem tokensFrom_toDigits (negative : Bool) (n : Nat) {rest : Text} (h : EndsNumber rest) :
    tokensFrom (signMode negative) (Nat.toDigits 10 n ++ rest) =
      .number (wholeLiteral negative (Nat.toDigits 10 n).reverse) :: tokensFrom .between rest := by
  rcases toDigits_head n with ⟨-, heq⟩ | ⟨c, more, heq, hne, hc, hmore⟩
  · rw [heq]
    have hzero : step (signMode negative) '0' = ([], .zero negative) := by
      cases negative <;> rfl
    simpa [tokensFrom, hzero] using tokensFrom_zero_end h
  · rw [heq]
    simpa [tokensFrom, step_signMode negative hc hne] using @tokensFrom_whole negative [c] more rest hmore h

end JsonToken

/-! ## Values -/

namespace Json

mutual

/-- Whether all numbers in a value are integers. -/
def isIntegral : Json → Bool
  | null => true
  | bool _ => true
  | number (.integer _) => true
  | number (.double _) => false
  | string _ => true
  | array items => allIntegral items
  | object fields => fieldsIntegral fields

def allIntegral : List Json → Bool
  | [] => true
  | item :: rest => isIntegral item && allIntegral rest

def fieldsIntegral : List (String × Json) → Bool
  | [] => true
  | (_, value) :: rest => isIntegral value && fieldsIntegral rest

end

/-- An integer as it is written. -/
def literal (value : Int) : NumberLiteral :=
  ⟨value < 0, Nat.toDigits 10 value.natAbs, [], none⟩

mutual

/-- The tokens of an integral value. -/
def tokens : Json → List JsonToken
  | null => [.null]
  | bool value => [.bool value]
  | number (.integer value) => [.number (literal value)]
  | number (.double _) => [.invalid]
  | string value => [.string (some value)]
  | array items => .openArray :: (itemTokens items ++ [.closeArray])
  | object fields => .openObject :: (fieldTokens fields ++ [.closeObject])

def itemTokens : List Json → List JsonToken
  | [] => []
  | [item] => tokens item
  | item :: rest => tokens item ++ .comma :: itemTokens rest

def fieldTokens : List (String × Json) → List JsonToken
  | [] => []
  | [(name, value)] => .string (some name) :: .colon :: tokens value
  | (name, value) :: rest =>
    .string (some name) :: .colon :: (tokens value ++ .comma :: fieldTokens rest)

end

open JsonToken

/-- A token of one character. -/
theorem tokensFrom_mark {c : Char} {token : JsonToken} (rest : Text)
    (h : start c = ([token], .between)) :
    tokensFrom .between (c :: rest) = token :: tokensFrom .between rest := by
  simp [tokensFrom, step, h]

theorem endsNumber_cons {c : Char} (rest : Text)
    (h : c.isDigit = false ∧ c ≠ '.' ∧ c ≠ 'e' ∧ c ≠ 'E') : EndsNumber (c :: rest) := by
  intro c' hc'
  obtain rfl : c = c' := by simpa using hc'
  exact h

theorem tokensFrom_literal (value : Int) {rest : Text} (h : EndsNumber rest) :
    tokensFrom .between (JsonNumber.render (.integer value) ++ rest) =
      .number (literal value) :: tokensFrom .between rest := by
  have hdigits := tokensFrom_toDigits (value < 0) value.natAbs h
  by_cases hnegative : value < 0
  · simpa [JsonNumber.render, hnegative, tokensFrom, step, start, signMode, wholeLiteral, literal]
      using hdigits
  · simpa [JsonNumber.render, hnegative, signMode, wholeLiteral, literal] using hdigits

mutual

theorem tokensFrom_compact : ∀ (value : Json) {rest : Text}, value.isIntegral = true →
    EndsNumber rest → tokensFrom .between (value.compact ++ rest) =
      value.tokens ++ tokensFrom .between rest
  | null, _, _, _ => rfl
  | bool true, _, _, _ => rfl
  | bool false, _, _, _ => rfl
  | number (.integer value), _, _, hrest => by
    simpa [compact, tokens] using tokensFrom_literal value hrest
  | number (.double _), _, h, _ => by
    simp [isIntegral] at h
  | string value, rest, _, _ => by
    simpa [compact, tokens] using tokensFrom_quote value rest
  | array items, rest, h, _ => by
    have hitems := tokensFrom_compactItems items h (endsNumber_cons rest (c := ']') (by decide))
    simp only [compact, tokens, List.cons_append, List.append_assoc, List.nil_append]
    rw [tokensFrom_mark _ rfl, hitems, tokensFrom_mark _ rfl]
  | object fields, rest, h, _ => by
    have hfields := tokensFrom_compactFields fields h (endsNumber_cons rest (c := '}') (by decide))
    simp only [compact, tokens, List.cons_append, List.append_assoc, List.nil_append]
    rw [tokensFrom_mark _ rfl, hfields, tokensFrom_mark _ rfl]

theorem tokensFrom_compactItems : ∀ (items : List Json) {rest : Text}, allIntegral items = true →
    EndsNumber rest → tokensFrom .between (compactItems items ++ rest) =
      itemTokens items ++ tokensFrom .between rest
  | [], _, _, _ => rfl
  | [item], rest, h, hrest => by
    have hitem : item.isIntegral = true := by simpa [allIntegral] using h
    exact tokensFrom_compact item hitem hrest
  | item :: next :: others, rest, h, hrest => by
    rw [allIntegral, Bool.and_eq_true] at h
    have hitem := tokensFrom_compact item h.1
      (endsNumber_cons (compactItems (next :: others) ++ rest) (c := ',') (by decide))
    have hothers := tokensFrom_compactItems (next :: others) h.2 hrest
    rw [compactItems, itemTokens, List.append_assoc, List.cons_append, hitem, tokensFrom_mark _ rfl,
      hothers]
    · simp
    · simp
    · simp

theorem tokensFrom_compactFields : ∀ (fields : List (String × Json)) {rest : Text},
    fieldsIntegral fields = true → EndsNumber rest →
      tokensFrom .between (compactFields fields ++ rest) =
        fieldTokens fields ++ tokensFrom .between rest
  | [], _, _, _ => rfl
  | [(name, value)], rest, h, hrest => by
    have hvalue : value.isIntegral = true := by simpa [fieldsIntegral] using h
    rw [compactFields, fieldTokens, List.append_assoc, List.cons_append, tokensFrom_quote,
      tokensFrom_mark _ rfl, tokensFrom_compact value hvalue hrest]
    rfl
  | (name, value) :: next :: others, rest, h, hrest => by
    rw [fieldsIntegral, Bool.and_eq_true] at h
    have hvalue := tokensFrom_compact value h.1
      (endsNumber_cons (compactFields (next :: others) ++ rest) (c := ',') (by decide))
    have hothers := tokensFrom_compactFields (next :: others) h.2 hrest
    simp only [compactFields, fieldTokens, List.append_assoc, List.cons_append]
    rw [tokensFrom_quote, tokensFrom_mark _ rfl, hvalue, tokensFrom_mark _ rfl, hothers]

end

/-- An integral value is cut into its tokens. -/
theorem ofText_compact {value : Json} (h : value.isIntegral = true) :
    JsonToken.ofText value.compact = value.tokens := by
  have hend : EndsNumber [] := by
    intro c hc
    simp at hc
  have hvalue := tokensFrom_compact value h hend
  rw [List.append_nil] at hvalue
  rw [ofText_eq_tokensFrom, hvalue]
  simp [tokensFrom, finish]

end Json
end Lineage
