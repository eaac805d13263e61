import Lineage.LineMap
import Mathlib.Data.List.Chain

set_option autoImplicit false

/-! # The lines of a text

The lines of a text are its parts between line terminators, said here without the function that cuts
them: each line but the last is a stretch without carriage returns and line feeds with one terminator
behind it (`Ended`), and the last is such a stretch alone. A terminator is told from what stands behind
it, since a carriage return in front of a line feed ends no line. Cutting a text gives such lines
(`lined_cut`), and one more than there are terminators (`length_cut`). -/

namespace Lineage

/-! ## Terminators -/

/-- The number of line terminators of a text: one for each line feed, and one for each carriage return
    that has no line feed behind it. -/
def Text.terminatorCount (t : Text) : Nat :=
  (List.range t.length).countP fun index =>
    t[index]? == some '\n' || (t[index]? == some '\r' && t[index + 1]? != some '\n')

theorem Text.terminatorCount_cons (c : Char) (rest : Text) :
    terminatorCount (c :: rest) =
      terminatorCount rest + if Line.endsWith c rest = true then 1 else 0 := by
  rw [terminatorCount, List.length_cons, List.range_succ_eq_map, List.countP_cons, List.countP_map,
    terminatorCount]
  congr 1
  simp [Line.endsWith, List.head?_eq_getElem?]

namespace Line

/-- A text without carriage returns and line feeds. -/
def Unbroken (t : Text) : Prop :=
  ∀ c ∈ t, ¬ (c = '\n' ∨ c = '\r')

/-- A line terminator with `next` behind it. -/
inductive Terminates : (terminator next : Text) → Prop where
  | lineFeed (next : Text) : Terminates ['\n'] next
  | returnAndFeed (next : Text) : Terminates ['\r', '\n'] next
  | carriageReturn {next : Text} : next.head? ≠ some '\n' → Terminates ['\r'] next

/-- A line that ends in front of `next`: there is one terminator, at its end. -/
def Ended (line next : Text) : Prop :=
  ∃ content terminator, line = content ++ terminator ∧ Unbroken content ∧ Terminates terminator next

section Ended

variable {c : Char} {line next rest : Text}

theorem Ended.ne_nil (h : Ended line next) : line ≠ [] := by
  obtain ⟨content, terminator, rfl, -, hterminator⟩ := h
  cases hterminator <;> simp

/-- A line that has ended holds a character of a terminator. -/
theorem Ended.exists_terminator (h : Ended line next) : ∃ c ∈ line, c = '\n' ∨ c = '\r' := by
  obtain ⟨content, terminator, rfl, -, hterminator⟩ := h
  cases hterminator with
  | lineFeed => exact ⟨'\n', by simp, .inl rfl⟩
  | returnAndFeed => exact ⟨'\n', by simp, .inl rfl⟩
  | carriageReturn => exact ⟨'\r', by simp, .inr rfl⟩

/-- Behind a carriage return at the end of a line stands no line feed. -/
theorem Ended.head?_ne (h : Ended line next) (hlast : line.getLast? = some '\r') :
    next.head? ≠ some '\n' := by
  obtain ⟨content, terminator, rfl, -, hterminator⟩ := h
  rw [List.getLast?_append] at hlast
  cases hterminator with
  | lineFeed => simp at hlast
  | returnAndFeed => simp at hlast
  | carriageReturn hnext => exact hnext

/-- The last character of a terminator makes a line. -/
theorem ended_singleton (hends : endsWith c rest = true) (hnext : next <+: rest) :
    Ended [c] next := by
  refine ⟨[], [c], rfl, by simp [Unbroken], ?_⟩
  by_cases hfeed : c = '\n'
  · subst hfeed
    exact .lineFeed next
  · obtain ⟨rfl, hrest⟩ : c = '\r' ∧ rest.head? ≠ some '\n' := by
      simpa [endsWith, hfeed] using hends
    refine .carriageReturn fun hhead => hrest ?_
    obtain ⟨more, rfl⟩ := hnext
    rw [List.head?_append, hhead]
    rfl

/-- What ends no line and is no part of a terminator goes to the content. -/
theorem Ended.cons (h : Ended line next) (hc : ¬ (c = '\n' ∨ c = '\r')) : Ended (c :: line) next := by
  obtain ⟨content, terminator, rfl, hcontent, hterminator⟩ := h
  exact ⟨c :: content, terminator, rfl, List.forall_mem_cons.mpr ⟨hc, hcontent⟩, hterminator⟩

/-- A carriage return in front of a line feed belongs to its terminator. -/
theorem Ended.cons_return (h : Ended line next) (hfeed : line.head? = some '\n') :
    Ended ('\r' :: line) next := by
  obtain ⟨content, terminator, rfl, hcontent, hterminator⟩ := h
  cases content with
  | cons first content =>
    have hfirst : first = '\n' := by simpa using hfeed
    exact absurd (.inl hfirst) (hcontent first List.mem_cons_self)
  | nil =>
    cases hterminator with
    | lineFeed => exact ⟨[], ['\r', '\n'], rfl, by simp [Unbroken], .returnAndFeed next⟩
    | returnAndFeed => simp at hfeed
    | carriageReturn => simp at hfeed

end Ended

/-! ## Lines of a text -/

/-- Lines as they stand one behind another in a text: only the last one has no terminator. -/
structure Lined (lines : List Text) : Prop where
  ended : lines.IsChain Ended
  last : ∀ line ∈ lines.getLast?, Unbroken line

section Cut

variable {c : Char} {rest line : Text} {more : List Text}

theorem cut_cons_of_endsWith (h : endsWith c rest = true) :
    cut (c :: rest) = [c] :: cut rest := by
  rw [cut, if_pos h]

theorem cut_cons_of_not_endsWith (h : ¬ endsWith c rest = true)
    (hrest : cut rest = line :: more) : cut (c :: rest) = (c :: line) :: more := by
  rw [cut, if_neg h, hrest]

theorem prefix_of_cut (hcut : cut rest = line :: more) : line <+: rest :=
  ⟨more.flatten, by rw [← flatten_cut rest, hcut, List.flatten_cons]⟩

/-- In front of the lines of a text, the last character of a terminator is a line of its own. -/
theorem Lined.cons_line (h : Lined (line :: more)) (hcut : cut rest = line :: more)
    (hends : endsWith c rest = true) : Lined ([c] :: line :: more) := by
  refine ⟨.cons_cons (ended_singleton hends (prefix_of_cut hcut)) h.ended, ?_⟩
  rw [List.getLast?_cons_cons]
  exact h.last

/-- Any other character joins the first line. -/
theorem Lined.cons_char (h : Lined (line :: more)) (hcut : cut rest = line :: more)
    (hends : ¬ endsWith c rest = true) : Lined ((c :: line) :: more) := by
  have hreturn : c = '\n' ∨ c = '\r' → c = '\r' ∧ rest.head? = some '\n' := by
    rintro (rfl | rfl)
    · simp [endsWith] at hends
    · simpa [endsWith] using hends
  cases more with
  | nil =>
    have hline : Unbroken line := h.last line rfl
    obtain rfl : rest = line := by rw [← flatten_cut rest, hcut]; simp
    refine ⟨.singleton _, ?_⟩
    intro line' hline'
    obtain rfl := Option.some.inj hline'
    refine List.forall_mem_cons.mpr ⟨fun hc => ?_, hline⟩
    -- the line feed behind the carriage return would be on the last line
    obtain ⟨-, hfeed⟩ := hreturn hc
    exact hline '\n' (List.mem_of_head? hfeed) (.inl rfl)
  | cons next more =>
    obtain ⟨hended, hchain⟩ := List.isChain_cons_cons.mp h.ended
    refine ⟨.cons_cons ?_ hchain, h.last⟩
    by_cases hc : c = '\n' ∨ c = '\r'
    · obtain ⟨rfl, hfeed⟩ := hreturn hc
      refine hended.cons_return ?_
      obtain ⟨first, line', rfl⟩ := List.exists_cons_of_ne_nil hended.ne_nil
      obtain ⟨back, rfl⟩ := prefix_of_cut hcut
      exact hfeed
    · exact hended.cons hc

/-- A text is cut into its lines. -/
theorem lined_cut (t : Text) : Lined (cut t) := by
  induction t with
  | nil => exact ⟨.singleton _, by simp [cut, Unbroken]⟩
  | cons c rest ih =>
    obtain ⟨line, more, hcut⟩ := List.exists_cons_of_ne_nil (cut_ne_nil rest)
    rw [hcut] at ih
    by_cases hends : endsWith c rest = true
    · rw [cut_cons_of_endsWith hends, hcut]
      exact ih.cons_line hcut hends
    · rw [cut_cons_of_not_endsWith hends hcut]
      exact ih.cons_char hcut hends

/-- There is one line more than there are terminators. -/
theorem length_cut (t : Text) : (cut t).length = t.terminatorCount + 1 := by
  induction t with
  | nil => rfl
  | cons c rest ih =>
    rw [Text.terminatorCount_cons]
    by_cases hends : endsWith c rest = true
    · rw [cut_cons_of_endsWith hends, List.length_cons, ih, if_pos hends]
    · obtain ⟨line, more, hcut⟩ := List.exists_cons_of_ne_nil (cut_ne_nil rest)
      rw [hcut, List.length_cons] at ih
      rw [cut_cons_of_not_endsWith hends hcut, List.length_cons, ih, if_neg hends]

/-- A line with another behind it has ended. -/
theorem ended_of_cut {t next : Text} {before : List Text}
    (h : cut t = before ++ line :: next :: more) : Ended line next := by
  have hchain := (lined_cut t).ended
  rw [h] at hchain
  exact (List.isChain_append_cons_cons.mp hchain).2.1

end Cut
end Line
end Lineage
