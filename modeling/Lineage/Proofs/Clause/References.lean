import Lineage.Proofs.Clause.Positions
import Lineage.Proofs.Text.Words

set_option autoImplicit false

/-! # Where references stand

Each reference that the scan of a text reports stands at a place that no word of the text crosses
(`cutsBetweenWords_of_mem_scan`). Behind an `extends` that is because a blank stands in front of it. A
name is reported only while one is expected, and since then the scan has passed no character outside
of brackets that can start an identifier: digits may stand in front of the name, but no word does.

In front of the first keyword the scan finds nothing (`run_announcement`): words other than the
keywords, and the blanks behind them, leave it as it started. -/

namespace Lineage.SupertypeClauses

open Text

/-! ## Names start where no word goes on -/

/-- What holds between `front` and `rest` while a text is scanned. The opening of a clause ends with a
    blank, a name is expected only where no word goes on, and so what was found stands between words. -/
structure State.Clear (front rest : Text) (state : State) : Prop where
  offset : state.offset = front.byteSize
  skip : state.skip ≠ 0 → ∃ (opening : Text) (blank : Char) (later : Text),
    rest = opening ++ blank :: later ∧ opening.length + 1 = state.skip ∧ isBlank blank = true
  expecting : state.skip = 0 → state.depth = 0 → state.expecting = true → NoWordAtEnd front
  found : ∀ offset ∈ state.found.offsets, (front ++ rest).CutsBetweenWords offset

theorem State.clear_initial (t : Text) : State.initial.Clear [] t := by
  constructor <;> simp [State.initial, empty, offsets]

/-- The opening of a clause, seen from behind its first letter. -/
theorem exists_blank_of_opening? {before : Option Char} {c : Char} {rest spelled : Text}
    {keyword : Keyword} (h : opening? before (c :: rest) = some (keyword, spelled)) :
    ∃ (opening : Text) (blank : Char) (later : Text), spelled = c :: opening ++ [blank] ∧
      rest = opening ++ blank :: later ∧ isBlank blank = true := by
  obtain ⟨blanks, later, hne, hblank, hspelled, ht, -⟩ := exists_of_opening? h
  obtain ⟨letter, letters, hletters⟩ : ∃ letter letters, keyword.letters = letter :: letters := by
    cases keyword <;> exact ⟨_, _, rfl⟩
  rw [← List.dropLast_concat_getLast hne, hletters] at hspelled
  rw [hspelled] at ht
  obtain ⟨rfl, rfl⟩ := List.cons.inj ht
  refine ⟨letters ++ blanks.dropLast, blanks.getLast hne, later, ?_, ?_,
    hblank _ (List.getLast_mem hne)⟩
  · rw [hspelled]
    simp
  · simp

/-- Outside of all brackets. -/
theorem State.Clear.stepOutside {front : Text} {c : Char} {rest : Text} {state : State}
    (h : state.Clear front (c :: rest)) (hskip : state.skip = 0) (hdepth : state.depth = 0) :
    ((state.stepOutside c rest).skip ≠ 0 → ∃ (opening : Text) (blank : Char) (later : Text),
      rest = opening ++ blank :: later ∧ opening.length + 1 = (state.stepOutside c rest).skip ∧
        isBlank blank = true) ∧
    ((state.stepOutside c rest).skip = 0 → (state.stepOutside c rest).expecting = true →
      NoWordAtEnd (front ++ [c])) ∧
    ∀ offset ∈ (state.stepOutside c rest).found.offsets,
      (front ++ c :: rest).CutsBetweenWords offset := by
  rw [State.stepOutside]
  split
  · next hcomma =>
    refine ⟨fun hne => absurd hskip hne, fun _ _ => ?_, h.found⟩
    obtain ⟨rfl, -⟩ : c = ',' ∧ _ := by simpa using hcomma
    exact noWordAtEnd_concat (by decide)
  · split
    · next keyword spelled hopening =>
      obtain ⟨opening, blank, later, rfl, rfl, hblank⟩ := exists_blank_of_opening? hopening
      refine ⟨fun _ => ⟨opening, blank, later, rfl, by simp, hblank⟩, fun hzero => ?_, ?_⟩
      · simp at hzero
      · cases keyword with
        | implementing => exact h.found
        | extending =>
          intro offset hoffset
          rcases mem_offsets_extended hoffset with rfl | hmem
          · refine ⟨front ++ c :: opening ++ [blank], later, by simp, ?_, ?_⟩
            · rw [h.offset, List.append_assoc, byteSize_append]
            · exact noWordAtEnd_concat (not_isIdentifierPart_of_isBlank hblank)
          · exact h.found offset hmem
    · split
      · next hname =>
        refine ⟨fun hne => absurd hskip hne, by rintro _ ⟨⟩, ?_⟩
        intro offset hoffset
        rcases mem_offsets_addName hoffset with rfl | hmem
        · rw [Bool.and_eq_true] at hname
          exact ⟨front, c :: rest, rfl, h.offset.symm, h.expecting hskip hdepth hname.1⟩
        · exact h.found offset hmem
      · next hname =>
        refine ⟨fun hne => absurd hskip hne, fun _ hexpecting => ?_, h.found⟩
        rw [hexpecting, Bool.true_and] at hname
        exact (h.expecting hskip hdepth hexpecting).concat hname

theorem State.Clear.step {front : Text} {c : Char} {rest : Text} {state : State}
    (h : state.Clear front (c :: rest)) : (state.step c rest).Clear (front ++ [c]) rest := by
  have hoffset : state.offset + c.utf8Size = (front ++ [c]).byteSize := by
    rw [h.offset, byteSize_append]
    rfl
  have hfound : ∀ offset ∈ state.found.offsets, (front ++ [c] ++ rest).CutsBetweenWords offset := by
    rw [List.append_assoc]
    exact h.found
  rw [State.step]
  split
  · next hskip =>
    obtain ⟨opening, blank, later, hrest, hlength, hblank⟩ := h.skip hskip
    cases opening with
    | nil =>
      obtain ⟨rfl, rfl⟩ := List.cons.inj hrest
      refine ⟨hoffset, fun hne => ?_, fun _ _ _ => ?_, hfound⟩
      · exact absurd (by simp [← hlength]) hne
      · exact noWordAtEnd_concat (not_isIdentifierPart_of_isBlank hblank)
    | cons first opening =>
      obtain ⟨rfl, rfl⟩ := List.cons.inj hrest
      refine ⟨hoffset, fun _ => ⟨opening, blank, later, rfl, by simp [← hlength], hblank⟩,
        fun hzero => ?_, hfound⟩
      simp [← hlength] at hzero
  · next hskip =>
    have hskip' : state.skip = 0 := by simpa using hskip
    split
    · next hc =>
      refine ⟨hoffset, fun hne => absurd hskip' hne, fun _ _ _ => ?_, hfound⟩
      obtain rfl : c = '<' := by simpa using hc
      exact noWordAtEnd_concat (by decide)
    · split
      · next hc =>
        refine ⟨hoffset, fun hne => absurd hskip' hne, fun _ _ _ => ?_, hfound⟩
        obtain ⟨rfl, -⟩ : c = '>' ∧ _ := by simpa using hc
        exact noWordAtEnd_concat (by decide)
      · split
        · next hdepth =>
          exact ⟨hoffset, fun hne => absurd hskip' hne, fun _ hzero => absurd hzero hdepth, hfound⟩
        · next hdepth =>
          obtain ⟨hopening, hexpecting, houtside⟩ :=
            h.stepOutside hskip' (by simpa using hdepth)
          rw [List.append_cons] at houtside
          exact ⟨hoffset, hopening, fun hzero _ => hexpecting hzero, houtside⟩

theorem cutsBetweenWords_of_mem_run {front rest : Text} {state : State}
    (h : state.Clear front rest) :
    ∀ offset ∈ (run state rest).offsets, (front ++ rest).CutsBetweenWords offset := by
  induction rest generalizing front state with
  | nil => exact h.found
  | cons c rest ih =>
    rw [run]
    split
    · exact h.found
    · have hrest := ih h.step
      rwa [List.append_assoc] at hrest

/-- No word of a text crosses the place of a reference. -/
theorem cutsBetweenWords_of_mem_scan {t : Text} {offset : Nat} (h : offset ∈ (scan t).offsets) :
    t.CutsBetweenWords offset :=
  cutsBetweenWords_of_mem_run (State.clear_initial t) offset h

/-! ## In front of the first keyword -/

/-- The scan behind `front`, within no opening of a clause. -/
def State.behind (front : Text) (depth : Int) (clause : Option Keyword) (expecting : Bool)
    (found : SupertypeClauses) : State where
  offset := front.byteSize
  before := front.getLast?
  skip := 0
  depth := depth
  clause := clause
  expecting := expecting
  found := found

section Passing

variable {front : Text} {clause : Option Keyword} {expecting : Bool} {found : SupertypeClauses}

/-- A character that is no bracket and no comma, opens no clause and starts no expected name. -/
theorem run_behind_cons {c : Char} {rest : Text} (hc : c ≠ '<' ∧ c ≠ '>' ∧ c ≠ '{' ∧ c ≠ ',')
    (hopening : opening? front.getLast? (c :: rest) = none)
    (hname : (expecting && isIdentifierStart c) = false) :
    run (.behind front 0 clause expecting found) (c :: rest) =
      run (.behind (front ++ [c]) 0 clause expecting found) rest := by
  have hends : (State.behind front 0 clause expecting found).endsHead c = false := by
    simp [State.endsHead, hc]
  rw [run, hends]
  simp [State.step, hc, State.stepOutside, hopening, hname, State.behind, byteSize_append]

theorem ne_of_isIdentifierPart {c : Char} (h : isIdentifierPart c = true) :
    c ≠ '<' ∧ c ≠ '>' ∧ c ≠ '{' ∧ c ≠ ',' := by
  refine ⟨?_, ?_, ?_, ?_⟩ <;> rintro rfl <;> revert h <;> decide

theorem ne_of_isBlank {c : Char} (h : isBlank c = true) :
    c ≠ '<' ∧ c ≠ '>' ∧ c ≠ '{' ∧ c ≠ ',' := by
  refine ⟨?_, ?_, ?_, ?_⟩ <;> rintro rfl <;> revert h <;> decide

theorem Keyword.isIdentifierPart_of_mem_letters {keyword : Keyword} {c : Char}
    (h : c ∈ keyword.letters) : isIdentifierPart c = true := by
  have hall : keyword.letters.all isIdentifierPart = true := by cases keyword <;> decide
  exact List.all_eq_true.mp hall c h

/-- A clause opens only with its keyword as the whole word. -/
theorem opening?_eq_none (before : Option Char) {t : Text}
    (h : ∀ keyword : Keyword, t.word ≠ keyword.letters) : opening? before t = none := by
  rw [Option.eq_none_iff_forall_not_mem]
  rintro ⟨keyword, spelled⟩ hopening
  obtain ⟨blanks, later, hne, hblanks, rfl, rfl, -⟩ := exists_of_opening? hopening
  refine h keyword ?_
  rw [List.append_assoc,
    word_append_blanks (fun c hc => keyword.isIdentifierPart_of_mem_letters hc) hne hblanks]

/-- Where no word stands, no clause opens. -/
theorem opening?_of_word_eq_nil (before : Option Char) {t : Text} (h : t.word = []) :
    opening? before t = none := by
  refine opening?_eq_none before fun keyword hletters => ?_
  rw [h] at hletters
  cases keyword <;> cases hletters

/-- The rest of a word: with an identifier character in front of it no clause opens. -/
theorem run_word_rest {word : Text} (rest : Text) (hbefore : front.getLast?.any isIdentifierPart = true)
    (hword : ∀ c ∈ word, isIdentifierPart c = true) :
    run (.behind front 0 clause false found) (word ++ rest) =
      run (.behind (front ++ word) 0 clause false found) rest := by
  induction word generalizing front with
  | nil => rw [List.append_nil, List.nil_append]
  | cons c word ih =>
    have hc := hword c List.mem_cons_self
    have hopening : opening? front.getLast? (c :: (word ++ rest)) = none := by
      rw [opening?, if_pos hbefore]
    rw [List.cons_append, run_behind_cons (ne_of_isIdentifierPart hc) hopening rfl,
      ih (by simpa using hc) fun c' hc' => hword c' (List.mem_cons_of_mem _ hc'),
      List.append_assoc, List.singleton_append]

/-- A word that is no keyword, where no name is expected: only its first character has no identifier
    character before it. -/
theorem run_word {word rest : Text} (hword : ∀ c ∈ word, isIdentifierPart c = true)
    (hkeyword : ∀ keyword : Keyword, word ≠ keyword.letters) (hrest : rest.word = []) :
    run (.behind front 0 clause false found) (word ++ rest) =
      run (.behind (front ++ word) 0 clause false found) rest := by
  cases word with
  | nil => rw [List.append_nil, List.nil_append]
  | cons c word =>
    have hc := hword c List.mem_cons_self
    have hopening : opening? front.getLast? (c :: word ++ rest) = none := by
      refine opening?_eq_none _ ?_
      rwa [word_append hword hrest]
    rw [List.cons_append] at hopening ⊢
    rw [run_behind_cons (ne_of_isIdentifierPart hc) hopening rfl,
      run_word_rest rest (by simpa using hc) fun c' hc' => hword c' (List.mem_cons_of_mem _ hc'),
      List.append_assoc, List.singleton_append]

/-- Blanks open no clause and start no name. -/
theorem run_blanks {blanks : Text} (rest : Text) (hblanks : ∀ c ∈ blanks, isBlank c = true) :
    run (.behind front 0 clause expecting found) (blanks ++ rest) =
      run (.behind (front ++ blanks) 0 clause expecting found) rest := by
  induction blanks generalizing front with
  | nil => rw [List.append_nil, List.nil_append]
  | cons c blanks ih =>
    have hc := hblanks c List.mem_cons_self
    have hpart := not_isIdentifierPart_of_isBlank hc
    have hname : (expecting && isIdentifierStart c) = false := by
      rw [Bool.eq_false_iff.mpr fun h => hpart (isIdentifierPart_of_isIdentifierStart h),
        Bool.and_false]
    rw [List.cons_append,
      run_behind_cons (ne_of_isBlank hc)
        (opening?_of_word_eq_nil _ (List.takeWhile_cons_of_neg hpart)) hname,
      ih fun c' hc' => hblanks c' (List.mem_cons_of_mem _ hc'), List.append_assoc,
      List.singleton_append]

end Passing

/-- Words that are no keywords, each with blanks behind it. -/
inductive Announcement : Text → Prop where
  | nil : Announcement []
  | word {word blanks rest : Text} (hword : ∀ c ∈ word, isIdentifierPart c = true)
      (hkeyword : ∀ keyword : Keyword, word ≠ keyword.letters) (hne : blanks ≠ [])
      (hblanks : ∀ c ∈ blanks, isBlank c = true) (hrest : Announcement rest) :
      Announcement (word ++ (blanks ++ rest))

theorem Announcement.not_mem {t : Text} (h : Announcement t) {c : Char}
    (hpart : ¬ isIdentifierPart c = true) (hblank : ¬ isBlank c = true) : c ∉ t := by
  induction h with
  | nil => exact List.not_mem_nil
  | word hword _ _ hblanks _ ih =>
    simp only [List.mem_append, not_or]
    exact ⟨fun hmem => hpart (hword c hmem), fun hmem => hblank (hblanks c hmem), ih⟩

/-- The scan of an announcement finds nothing. -/
theorem run_announcement {t : Text} (h : Announcement t) (front rest : Text)
    (clause : Option Keyword) (found : SupertypeClauses) :
    run (.behind front 0 clause false found) (t ++ rest) =
      run (.behind (front ++ t) 0 clause false found) rest := by
  induction h generalizing front with
  | nil => rw [List.append_nil, List.nil_append]
  | @word word blanks more hword hkeyword hne hblanks _ ih =>
    have hgap : Text.word (blanks ++ (more ++ rest)) = [] :=
      @word_append_blanks [] blanks (by simp) hne hblanks _
    rw [List.append_assoc, List.append_assoc, run_word hword hkeyword hgap, run_blanks _ hblanks,
      ih, List.append_assoc, List.append_assoc]

/-- The references of a text stand behind what announces it, with a keyword and a blank between. -/
theorem scan_announcement_ge {t : Text} (h : Announcement t) (rest : Text) :
    ∀ offset ∈ (scan (t ++ rest)).offsets, t.byteSize + 8 ≤ offset := by
  have hscan : scan (t ++ rest) = run (.behind t 0 none false .empty) rest :=
    run_announcement h [] rest none .empty
  rw [hscan]
  refine run_ge ?_ rest
  constructor <;> simp [State.behind, empty, offsets]

end Lineage.SupertypeClauses
