import Lineage.Text.Word

set_option autoImplicit false

/-! # Words of a text

Where a text is cut at a place that no word crosses (`NoWordAtEnd`), its words are those in front of
the cut and those behind it. So the only word over such a place is the one that starts there, and
there is one exactly if the character there can start an identifier (`filter_wordsFrom`). A run of
digits is no word, though its characters can go on with one, so the place behind `1` in `1a` counts
too. -/

namespace Lineage.Text

/-! ## Blanks and identifier characters -/

theorem exists_of_inRanges {table : List (Nat × Nat)} {c : Char} (h : inRanges table c = true) :
    ∃ range ∈ table, range.1 ≤ c.toNat ∧ c.toNat ≤ range.2 := by
  obtain ⟨range, hmem, hrange⟩ := List.any_eq_true.mp h
  rw [Bool.and_eq_true, decide_eq_true_iff, decide_eq_true_iff] at hrange
  exact ⟨range, hmem, hrange⟩

/-- No range of blanks meets a range of letters. -/
theorem blankRanges_disjoint : ∀ blank ∈ blankRanges, ∀ letter ∈ alphabeticRanges,
    blank.2 < letter.1 ∨ letter.2 < blank.1 := by
  decide +kernel

theorem not_isIdentifierPart_of_ascii : ∀ code < 0x80, isBlank (Char.ofNat code) = true →
    isIdentifierPart (Char.ofNat code) = false := by
  decide +kernel

/-- Blanks separate words. -/
theorem not_isIdentifierPart_of_isBlank {c : Char} (h : isBlank c = true) :
    ¬ isIdentifierPart c = true := by
  by_cases hascii : c.toNat < 0x80
  · rw [Bool.not_eq_true, ← Char.ofNat_toNat c]
    exact not_isIdentifierPart_of_ascii c.toNat hascii (by rwa [Char.ofNat_toNat])
  · obtain ⟨blank, hblank, hlow, hhigh⟩ := exists_of_inRanges h
    rw [isIdentifierPart, isIdentifierStart, isAlphabetic, if_neg hascii]
    intro hpart
    simp only [Bool.or_eq_true, beq_iff_eq] at hpart
    rcases hpart with ((rfl | rfl) | hletter) | hdigit
    · exact hascii (by decide)
    · exact hascii (by decide)
    · obtain ⟨letter, hmem, hlow', hhigh'⟩ := exists_of_inRanges hletter
      have := blankRanges_disjoint blank hblank letter hmem
      omega
    · rw [Char.isDigit, Bool.and_eq_true, decide_eq_true_iff, decide_eq_true_iff] at hdigit
      have := UInt32.le_iff_toNat_le.mp hdigit.2
      exact hascii (Nat.lt_of_le_of_lt this (by decide))

theorem isIdentifierPart_of_isIdentifierStart {c : Char} (h : isIdentifierStart c = true) :
    isIdentifierPart c = true := by
  rw [isIdentifierPart, h]
  rfl

theorem isIdentifierPart_of_mem_word {t : Text} {c : Char} (h : c ∈ t.word) :
    isIdentifierPart c = true :=
  (List.all_eq_true.mp List.all_takeWhile) c h

/-- A word goes up to where none goes on. -/
theorem word_append {w rest : Text} (hw : ∀ c ∈ w, isIdentifierPart c = true)
    (hrest : rest.word = []) : word (w ++ rest) = w := by
  rw [word, List.takeWhile_append_of_pos hw, ← word, hrest, List.append_nil]

/-- A word goes up to a blank. -/
theorem word_append_blanks {w blanks : Text} (hw : ∀ c ∈ w, isIdentifierPart c = true)
    (hne : blanks ≠ []) (hblanks : ∀ c ∈ blanks, isBlank c = true) (rest : Text) :
    word (w ++ (blanks ++ rest)) = w := by
  obtain ⟨blank, more, rfl⟩ := List.exists_cons_of_ne_nil hne
  have hblank := not_isIdentifierPart_of_isBlank (hblanks blank List.mem_cons_self)
  exact word_append hw (List.takeWhile_cons_of_neg hblank)

/-- A front that stops at no identifier character starts with the same word. -/
theorem word_takeWhile {p : Char → Bool} (hp : ∀ c, isIdentifierPart c = true → p c = true)
    (t : Text) : word (t.takeWhile p) = word t ∧
      (t.takeWhile p).head?.any isIdentifierStart = t.head?.any isIdentifierStart := by
  induction t with
  | nil => exact ⟨rfl, rfl⟩
  | cons c t ih =>
    by_cases hc : p c = true
    · rw [List.takeWhile_cons_of_pos hc]
      refine ⟨?_, rfl⟩
      simp only [word, List.takeWhile_cons]
      rw [← word, ← word, ih.1]
    · have hpart : ¬ isIdentifierPart c = true := fun h => hc (hp c h)
      have hstart : ¬ isIdentifierStart c = true := fun h =>
        hpart (isIdentifierPart_of_isIdentifierStart h)
      rw [List.takeWhile_cons_of_neg hc]
      refine ⟨?_, ?_⟩
      · rw [word, word, List.takeWhile_cons_of_neg hpart]
        rfl
      · simp [hstart]

/-! ## What stands between words -/

theorem word_afterWord (t : Text) : word (afterWord t) = [] :=
  takeWhile_dropWhile t

/-- Between two words stands a blank, if nothing but blanks. -/
theorem leadingBlanks_ne_nil {t : Text} (h : word (nextWord t) ≠ []) :
    leadingBlanks (afterWord t) ≠ [] := by
  intro hnil
  have hnext := leadingBlanks_append_trimStart (afterWord t)
  rw [hnil, List.nil_append] at hnext
  rw [nextWord, hnext] at h
  exact h (word_afterWord t)

theorem append_nextWord (t : Text) :
    word t ++ (leadingBlanks (afterWord t) ++ nextWord t) = t := by
  rw [nextWord, leadingBlanks_append_trimStart, word_append_afterWord]

/-- How far the next word is away. -/
theorem byteSize_sub_nextWord (t : Text) :
    t.byteSize - t.nextWord.byteSize = byteSize (t.word ++ leadingBlanks t.afterWord) := by
  have hsize := congrArg byteSize (append_nextWord t)
  simp only [byteSize_append] at hsize ⊢
  omega

theorem isBlank_of_mem_leadingBlanks {t : Text} {c : Char} (h : c ∈ t.leadingBlanks) :
    isBlank c = true :=
  (List.all_eq_true.mp List.all_takeWhile) c h

/-- The lines of a text are all of it. -/
theorem flatten_lines (t : Text) : t.lines.flatten = t := by
  induction t with
  | nil => rfl
  | cons c rest ih =>
    rw [lines]
    split
    · rw [List.flatten_cons, ih]
      rfl
    · split
      · next h => rw [h] at ih; rw [← ih]; rfl
      · next line more h => rw [h] at ih; rw [← ih]; rfl

/-! ## Cuts that no word crosses -/

/-- No word of a text goes on to its end: the identifier characters that stand there, if any, start
    none. -/
def NoWordAtEnd (front : Text) : Prop :=
  ∀ c ∈ front.reverse.takeWhile isIdentifierPart, ¬ isIdentifierStart c = true

/-- No word goes on over a character that is not part of one. -/
theorem noWordAtEnd_concat {front : Text} {c : Char} (hc : ¬ isIdentifierPart c = true) :
    NoWordAtEnd (front ++ [c]) := by
  rw [NoWordAtEnd, List.reverse_append, List.reverse_singleton, List.singleton_append,
    List.takeWhile_cons_of_neg hc]
  rintro c ⟨⟩

theorem NoWordAtEnd.concat {front : Text} {c : Char} (h : NoWordAtEnd front)
    (hc : ¬ isIdentifierStart c = true) : NoWordAtEnd (front ++ [c]) := by
  by_cases hpart : isIdentifierPart c = true
  · rw [NoWordAtEnd, List.reverse_append, List.reverse_singleton, List.singleton_append,
      List.takeWhile_cons_of_pos hpart]
    intro c' hc'
    rcases List.mem_cons.mp hc' with rfl | hmem
    · exact hc
    · exact h c' hmem
  · exact noWordAtEnd_concat hpart

theorem NoWordAtEnd.tail {c : Char} {front : Text} (h : NoWordAtEnd (c :: front)) :
    NoWordAtEnd front := by
  intro c' hc'
  refine h c' ?_
  rw [List.reverse_cons, List.takeWhile_append]
  split
  · exact List.mem_append_left _ ((List.takeWhile_prefix _).subset hc')
  · exact hc'

/-- Where a word starts, it stops before the end. -/
theorem NoWordAtEnd.exists_not_isIdentifierPart {c : Char} {front : Text}
    (h : NoWordAtEnd (c :: front)) (hc : isIdentifierStart c = true) :
    ∃ c' ∈ c :: front, ¬ isIdentifierPart c' = true := by
  refine Classical.byContradiction fun hall => ?_
  simp only [not_exists, not_and, Classical.not_not] at hall
  refine h c ?_ hc
  rw [← List.append_nil (c :: front).reverse,
    List.takeWhile_append_of_pos fun c' hc' => hall c' (List.mem_reverse.mp hc')]
  simp

/-- A text can be cut at an offset, and no word crosses the cut. -/
def CutsBetweenWords (t : Text) (offset : Nat) : Prop :=
  ∃ front back, t = front ++ back ∧ front.byteSize = offset ∧ NoWordAtEnd front

theorem takeWhile_append_of_exists {p : Char → Bool} {front : Text} (back : Text)
    (h : ∃ c ∈ front, ¬ p c = true) : (front ++ back).takeWhile p = front.takeWhile p := by
  induction front with
  | nil => simp at h
  | cons c front ih =>
    by_cases hc : p c = true
    · rw [List.cons_append, List.takeWhile_cons_of_pos hc, List.takeWhile_cons_of_pos hc, ih]
      obtain ⟨c', hmem, hc'⟩ := h
      rcases List.mem_cons.mp hmem with rfl | hmem
      · exact absurd hc hc'
      · exact ⟨c', hmem, hc'⟩
    · rw [List.cons_append, List.takeWhile_cons_of_neg hc, List.takeWhile_cons_of_neg hc]

/-! ## Words -/

/-- The words of a text that is cut where none goes on. -/
theorem wordsFrom_append {front : Text} (h : NoWordAtEnd front) (offset : Nat) {skip : Nat}
    (hskip : skip ≤ front.length) (back : Text) :
    wordsFrom offset skip (front ++ back) =
      wordsFrom offset skip front ++ wordsFrom (offset + front.byteSize) 0 back := by
  induction front generalizing offset skip with
  | nil =>
    obtain rfl : skip = 0 := Nat.le_zero.mp hskip
    rw [wordsFrom]
    rfl
  | cons c front ih =>
    rw [List.cons_append, byteSize_cons, ← Nat.add_assoc]
    cases skip with
    | succ skip =>
      rw [wordsFrom, wordsFrom, ih h.tail _ (Nat.le_of_succ_le_succ hskip)]
    | zero =>
      rw [wordsFrom, wordsFrom]
      by_cases hc : isIdentifierStart c = true
      · have hword : word (c :: (front ++ back)) = word (c :: front) :=
          takeWhile_append_of_exists back (h.exists_not_isIdentifierPart hc)
        have hlength : (word (c :: front)).length ≤ (c :: front).length :=
          (List.takeWhile_prefix _).length_le
        rw [List.length_cons] at hlength
        rw [if_pos hc, if_pos hc, hword]
        dsimp only
        rw [ih h.tail _ (by omega)]
        rfl
      · rw [if_neg hc, if_neg hc, ih h.tail _ (Nat.zero_le _)]

theorem wordsFrom_skip (offset : Nat) {front : Text} (back : Text) :
    wordsFrom offset front.length (front ++ back) = wordsFrom (offset + front.byteSize) 0 back := by
  induction front generalizing offset with
  | nil => rfl
  | cons c front ih =>
    rw [List.length_cons, List.cons_append, wordsFrom, ih, byteSize_cons, Nat.add_assoc]

/-- A word that starts here comes first. -/
theorem wordsFrom_of_start (offset : Nat) {c : Char} {rest : Text}
    (hc : isIdentifierStart c = true) :
    wordsFrom offset 0 (c :: rest) = (offset, word (c :: rest)) ::
      wordsFrom (offset + (word (c :: rest)).byteSize) 0 (afterWord (c :: rest)) := by
  have hpart := isIdentifierPart_of_isIdentifierStart hc
  have hword : word (c :: rest) = c :: word rest := List.takeWhile_cons_of_pos hpart
  have hafter : afterWord (c :: rest) = afterWord rest := List.dropWhile_cons_of_pos hpart
  rw [wordsFrom, if_pos hc, hword, hafter]
  dsimp only
  rw [List.length_cons, Nat.add_sub_cancel, byteSize_cons, ← Nat.add_assoc, ← wordsFrom_skip,
    word_append_afterWord]

/-- A word stands in the text at its offset. -/
theorem exists_of_mem_wordsFrom {offset skip : Nat} {t : Text} {found : Nat × Text}
    (h : found ∈ wordsFrom offset skip t) :
    ∃ front back : Text, t = front ++ (found.2 ++ back) ∧ found.1 = offset + front.byteSize := by
  induction t generalizing offset skip with
  | nil => cases skip <;> cases h
  | cons c rest ih =>
    have hrest : ∀ {skip}, found ∈ wordsFrom (offset + c.utf8Size) skip rest →
        ∃ front back : Text, c :: rest = front ++ (found.2 ++ back) ∧
          found.1 = offset + front.byteSize := by
      intro skip hmem
      obtain ⟨front, back, rfl, hoffset⟩ := ih hmem
      exact ⟨c :: front, back, rfl, by rw [hoffset, byteSize_cons, Nat.add_assoc]⟩
    cases skip with
    | succ skip => exact hrest h
    | zero =>
      rw [wordsFrom] at h
      split at h
      · rcases List.mem_cons.mp h with rfl | hmem
        · exact ⟨[], afterWord (c :: rest), (word_append_afterWord _).symm, rfl⟩
        · exact hrest hmem
      · exact hrest h

/-- Whether a word with its offset covers a place. -/
def covers (place : Nat) (found : Nat × Text) : Bool :=
  found.1 ≤ place && place < found.1 + found.2.byteSize

/-- The words over a place that no word crosses. -/
theorem filter_wordsFrom {front : Text} (h : NoWordAtEnd front) (offset : Nat) (back : Text) :
    (wordsFrom offset 0 (front ++ back)).filter (covers (offset + front.byteSize)) =
      if back.head?.any isIdentifierStart then [(offset + front.byteSize, back.word)] else [] := by
  have hfront : (wordsFrom offset 0 front).filter (covers (offset + front.byteSize)) = [] := by
    rw [List.filter_eq_nil_iff]
    intro found hfound
    obtain ⟨before, after, rfl, hoffset⟩ := exists_of_mem_wordsFrom hfound
    simp only [covers, byteSize_append, Bool.and_eq_true, decide_eq_true_iff]
    omega
  have hlater : ∀ later rest, offset + front.byteSize < later →
      (wordsFrom later 0 rest).filter (covers (offset + front.byteSize)) = [] := by
    intro later rest hlater
    rw [List.filter_eq_nil_iff]
    intro found hfound
    obtain ⟨before, after, -, hoffset⟩ := exists_of_mem_wordsFrom hfound
    simp only [covers, Bool.and_eq_true, decide_eq_true_iff]
    omega
  rw [wordsFrom_append h offset (Nat.zero_le _), List.filter_append, hfront, List.nil_append]
  cases back with
  | nil => rfl
  | cons c rest =>
    have hpos := c.utf8Size_pos
    by_cases hc : isIdentifierStart c = true
    · have hword : 0 < (word (c :: rest)).byteSize := by
        rw [word, List.takeWhile_cons_of_pos (isIdentifierPart_of_isIdentifierStart hc),
          byteSize_cons]
        omega
      have hcovers : covers (offset + front.byteSize)
          (offset + front.byteSize, word (c :: rest)) = true := by
        simp only [covers, Bool.and_eq_true, decide_eq_true_iff]
        omega
      rw [wordsFrom_of_start _ hc, List.filter_cons_of_pos hcovers, hlater _ _ (by omega)]
      simp [hc]
    · rw [wordsFrom, if_neg hc, hlater _ _ (by omega)]
      simp [hc]

end Lineage.Text
