import Lineage.Modifier

set_option autoImplicit false

/-! # Modifiers are found wherever they stand

The search for a modifier goes on behind each occurrence that is no token, so it never looks at an
occurrence that starts inside another one. For a modifier whose characters all join tokens nothing is
lost that way (`Member.hasModifier_iff`): an occurrence that is passed over has a character of the
modifier directly in front of it, and so it is no token either. -/

namespace Lineage

namespace Text

variable {token before rest t : Text} {left : Option Char} {c : Char} {skip : Nat}

/-- In a text that stands after the character `left`, a token stands behind `before` and in front of a
    blank. -/
def TokenBehind (token : Text) (left : Option Char) (before t : Text) : Prop :=
  ∃ (blank : Char) (after : Text), t = before ++ (token ++ blank :: after) ∧ isBlank blank = true ∧
    startsToken (before.getLast?.or left) = true

/-- No token can start at the first `skip` places of a text that stands after the character `left`:
    in front of each stands a character that joins tokens. -/
def Covered (left : Option Char) (skip : Nat) (t : Text) : Prop :=
  0 < skip → left.any joinsToken = true ∧ ∀ c ∈ t.take (skip - 1), joinsToken c = true

theorem startsBlank_iff :
    startsBlank t = true ↔ ∃ blank after, t = blank :: after ∧ isBlank blank = true := by
  cases t with
  | nil => simp [startsBlank]
  | cons blank after => simp [startsBlank]

/-- A token at the front of a text. -/
theorem tokenBehind_nil_iff : TokenBehind token left [] t ↔
    token.isPrefixOf t = true ∧ startsToken left = true ∧ startsBlank (t.drop token.length) = true := by
  rw [List.isPrefixOf_iff_prefix, startsBlank_iff]
  constructor
  · rintro ⟨blank, after, rfl, hblank, hstarts⟩
    exact ⟨List.prefix_append _ _, hstarts, blank, after, by simp, hblank⟩
  · rintro ⟨⟨behind, rfl⟩, hstarts, blank, after, hbehind, hblank⟩
    rw [List.drop_left] at hbehind
    exact ⟨blank, after, by rw [hbehind, List.nil_append], hblank, hstarts⟩

/-- A token further behind is one of the rest, which stands after the first character. -/
theorem tokenBehind_cons_iff {d : Char} : TokenBehind token left (d :: before) (c :: rest) ↔
    d = c ∧ TokenBehind token (some c) before rest := by
  have hlast : ((d :: before).getLast?).or left = before.getLast?.or (some d) := by
    rw [List.getLast?_cons]
    cases before.getLast? <;> rfl
  constructor
  · rintro ⟨blank, after, heq, hblank, hstarts⟩
    obtain ⟨rfl, rfl⟩ := List.cons.inj heq
    exact ⟨rfl, blank, after, rfl, hblank, by rwa [hlast] at hstarts⟩
  · rintro ⟨rfl, blank, after, rfl, hblank, hstarts⟩
    exact ⟨blank, after, rfl, hblank, by rwa [hlast]⟩

theorem exists_tokenBehind_cons_iff : (∃ before, TokenBehind token left before (c :: rest)) ↔
    TokenBehind token left [] (c :: rest) ∨ ∃ before, TokenBehind token (some c) before rest := by
  constructor
  · rintro ⟨_ | ⟨d, before⟩, h⟩
    · exact .inl h
    · exact .inr ⟨before, (tokenBehind_cons_iff.mp h).2⟩
  · rintro (h | ⟨before, h⟩)
    · exact ⟨[], h⟩
    · exact ⟨c :: before, tokenBehind_cons_iff.mpr ⟨rfl, h⟩⟩

theorem Covered.tail (h : Covered left (skip + 1) (c :: rest)) : Covered (some c) skip rest := by
  intro hpos
  obtain ⟨skip, rfl⟩ := Nat.exists_eq_add_one_of_ne_zero (Nat.ne_of_gt hpos)
  have hjoins := (h (Nat.succ_pos _)).2
  simp only [Nat.add_sub_cancel, List.take_succ_cons, List.forall_mem_cons] at hjoins
  exact hjoins

/-- Inside an occurrence of a token no token starts, if all its characters join tokens. -/
theorem covered_of_isPrefixOf (htoken : ∀ c ∈ token, joinsToken c = true)
    (h : token.isPrefixOf (c :: rest) = true) : Covered (some c) (token.length - 1) rest := by
  obtain ⟨behind, hbehind⟩ := List.isPrefixOf_iff_prefix.mp h
  cases token with
  | nil => exact fun hpos => absurd hpos (Nat.lt_irrefl 0)
  | cons d token =>
    obtain ⟨rfl, rfl⟩ := List.cons.inj hbehind
    rw [List.forall_mem_cons] at htoken
    refine fun _ => ⟨htoken.1, fun other hother => htoken.2 other ?_⟩
    have htake : (token ++ behind).take ((d :: token).length - 1 - 1) = token.take (token.length - 1) :=
      List.take_append_of_le_length (Nat.sub_le _ _)
    exact List.mem_of_mem_take (htake ▸ hother)

/-- Looking only at occurrences that do not overlap finds a token exactly if there is one. -/
theorem hasTokenFrom_iff (htoken : ∀ c ∈ token, joinsToken c = true)
    (hcovered : Covered left skip t) :
    hasTokenFrom token left skip t = true ↔ ∃ before, TokenBehind token left before t := by
  induction t generalizing left skip with
  | nil =>
    refine iff_of_false (by cases skip <;> simp [hasTokenFrom]) ?_
    rintro ⟨before, blank, after, heq, -⟩
    simp at heq
  | cons c rest ih =>
    rw [exists_tokenBehind_cons_iff]
    cases skip with
    | succ skip =>
      -- the place in front of `c` is covered, so a token stands further behind
      have hnone : ¬ TokenBehind token left [] (c :: rest) := by
        rw [tokenBehind_nil_iff, startsToken, (hcovered (Nat.succ_pos _)).1]
        simp
      rw [hasTokenFrom, ih hcovered.tail, or_iff_right hnone]
    | zero =>
      rw [hasTokenFrom, tokenBehind_nil_iff]
      by_cases hoccurs : token.isPrefixOf (c :: rest) = true
      · rw [if_pos hoccurs, Bool.or_eq_true, Bool.and_eq_true,
          ih (covered_of_isPrefixOf htoken hoccurs)]
        simp only [hoccurs, true_and]
      · have hfree : Covered (some c) 0 rest := fun hpos => absurd hpos (Nat.lt_irrefl 0)
        rw [if_neg hoccurs, ih hfree, or_iff_right fun h => hoccurs h.1]

end Text

namespace Member

/-- **Modifiers are found wherever they stand.** If all characters of a modifier join tokens, a member
    carries it exactly if its text has it somewhere in front of a blank, and at the very start or behind
    a character that joins no token. -/
theorem hasModifier_iff (member : Member) {modifier : String}
    (hmodifier : ∀ c ∈ modifier.toList, Text.joinsToken c = true) :
    member.hasModifier modifier = true ↔
      ∃ (before after : Text) (blank : Char),
        member.text.toList = before ++ modifier.toList ++ blank :: after ∧
          Text.isBlank blank = true ∧
          ∀ c, before.getLast? = some c → Text.joinsToken c = false := by
  rw [hasModifier, Text.hasToken,
    Text.hasTokenFrom_iff hmodifier fun hpos => absurd hpos (Nat.lt_irrefl 0)]
  simp only [Text.TokenBehind, Text.startsToken, Option.or_none, List.append_assoc]
  constructor
  · rintro ⟨before, blank, after, heq, hblank, hstarts⟩
    refine ⟨before, after, blank, heq, hblank, ?_⟩
    intro c hc
    simpa [hc] using hstarts
  · rintro ⟨before, after, blank, heq, hblank, hstarts⟩
    refine ⟨before, blank, after, heq, hblank, ?_⟩
    cases hlast : before.getLast? with
    | none => rfl
    | some c => simpa using hstarts c hlast

/-- A member whose text has the modifier `aa` four times: twice overlapping, once behind a letter and
    once as a token. -/
def sampleOverlapping : Member :=
  ⟨"m", .method, "sample", ⟨.zero, .zero⟩, "aaaéaa\u3000aa\tm"⟩

theorem hasModifier_sampleOverlapping : sampleOverlapping.hasModifier "aa" = true := by
  have hmodifier : ∀ c ∈ "aa".toList, Text.joinsToken c = true :=
    List.all_eq_true.mp (by decide +kernel)
  refine (hasModifier_iff sampleOverlapping hmodifier).mpr
    ⟨"aaaéaa\u3000".toList, "m".toList, '\t', by decide +kernel, by decide +kernel, ?_⟩
  intro c hc
  obtain rfl : c = '\u3000' := Option.some.inj (hc.symm.trans (by decide +kernel))
  decide +kernel

end Member
end Lineage
