import Lineage.Hierarchy.Builder
import Lineage.Proofs.LineMap.Lines

set_option autoImplicit false

/-! # Positions of references

The references of a declaration that was cut out of a document of less than 2^31 bytes all have
positions, whatever the range of the declaration is.

Lines and columns of such a text are below 2^31, so a sum of two of them fits. What is not bounded is
the column at which a declaration is said to start: it may lie far past the end of its line. But then
the text that is cut out starts with the line terminator, and as no reference stands so close to the
start of a text (`scan_ge`), none is on the first line, the only one that is shifted sideways. -/

namespace Lineage

/-! ## Sizes of texts -/

namespace Text

/-- No character has more UTF-16 units than bytes. -/
theorem unitSize_le_utf8Size (c : Char) : unitSize c ≤ c.utf8Size := by
  have hpos := c.utf8Size_pos
  rw [unitSize]
  split
  · exact hpos
  · next hlarge =>
    have hval : ¬ c.val ≤ 0xffff := fun hle => by
      have := UInt32.le_iff_toNat_le.mp hle
      simp only [Char.toNat, UInt32.reduceToNat] at hlarge this
      omega
    have hval' : ¬ c.val ≤ 0x7ff := fun hle => hval (UInt32.le_trans hle (by decide))
    have hval'' : ¬ c.val ≤ 0x7f := fun hle => hval (UInt32.le_trans hle (by decide))
    rw [Char.utf8Size]
    simp [hval, hval', hval'']

theorem unitCount_le_byteSize (t : Text) : unitCount t ≤ byteSize t := by
  induction t with
  | nil => exact Nat.le_refl 0
  | cons c rest ih =>
    rw [unitCount_cons, byteSize_cons]
    exact Nat.add_le_add (unitSize_le_utf8Size c) ih

theorem length_le_byteSize (t : Text) : t.length ≤ byteSize t := by
  induction t with
  | nil => exact Nat.le_refl 0
  | cons c rest ih =>
    have := c.utf8Size_pos
    rw [List.length_cons, byteSize_cons]
    omega

/-- A part of a text: what stands between two places to cut it. -/
theorem between?_eq_some {start stop : Nat} {t part : Text} (h : t.between? start stop = some part) :
    ∃ front back, t = front ++ (part ++ back) ∧ byteSize front = start := by
  rw [between?] at h
  split at h
  · cases h
  · rw [drop?_eq] at h
    obtain ⟨rest, hrest, h⟩ := Option.bind_eq_some_iff.mp h
    obtain ⟨⟨front, rest'⟩, hsplit, rfl⟩ := Option.map_eq_some_iff.mp hrest
    obtain ⟨⟨part', back⟩, hsplit', h⟩ := Option.bind_eq_some_iff.mp h
    cases h
    obtain ⟨rfl, hsize⟩ := eq_append_of_splitAt? hsplit
    obtain ⟨heq, -⟩ := eq_append_of_splitAt? hsplit'
    dsimp only at heq
    exact ⟨front, back, by rw [heq], hsize⟩

end Text

/-! ## Lines of a text -/

namespace Line

/-- A text has no more line terminators than bytes. -/
theorem length_cut_le (t : Text) : (cut t).length ≤ t.byteSize + 1 := by
  have hcount : t.terminatorCount ≤ (List.range t.length).length := List.countP_le_length
  have hlength := Text.length_le_byteSize t
  rw [List.length_range] at hcount
  rw [length_cut]
  omega

/-- A line that is not the last one has a terminator. -/
theorem exists_terminator {t line : Text} {before after : List Text}
    (h : cut t = before ++ line :: after) (hafter : after ≠ []) :
    ∃ c ∈ line, c = '\n' ∨ c = '\r' := by
  obtain ⟨next, more, rfl⟩ := List.exists_cons_of_ne_nil hafter
  exact (ended_of_cut h).exists_terminator

/-- A line in its place: the lines before it make up the text in front of it. -/
theorem exists_of_getElem?_place {offset index : Nat} {texts : List Text} {line : Line}
    (h : (place offset texts)[index]? = some line) :
    ∃ before after, texts = before ++ line.text :: after ∧ before.length = index ∧
      line.start = offset + Text.byteSize before.flatten := by
  induction texts generalizing offset index with
  | nil => simp [place] at h
  | cons text rest ih =>
    rw [place] at h
    cases index with
    | zero =>
      cases h
      exact ⟨[], rest, rfl, rfl, rfl⟩
    | succ index =>
      obtain ⟨before, after, rfl, hlength, hstart⟩ := ih (by simpa using h)
      refine ⟨text :: before, after, rfl, by rw [List.length_cons, hlength], ?_⟩
      rw [List.flatten_cons, Text.byteSize_append, hstart, Nat.add_assoc]

theorem length_place (offset : Nat) (texts : List Text) :
    (place offset texts).length = texts.length := by
  induction texts generalizing offset with
  | nil => rfl
  | cons text rest ih => rw [place, List.length_cons, List.length_cons, ih]

/-- The walk along a line stays in front of the terminator and within the column, and stops only at a
    character that would leave one of them. -/
theorem exists_of_bytesWithin (units : Nat) (t : Text) :
    ∃ front back, t = front ++ back ∧ Text.byteSize front = bytesWithin units t ∧
      (∀ c ∈ front, ¬ (c = '\n' ∨ c = '\r')) ∧ front.unitCount ≤ units ∧
      ∀ c ∈ back.head?, (c = '\n' ∨ c = '\r') ∨ units < front.unitCount + Text.unitSize c := by
  induction t generalizing units with
  | nil => exact ⟨[], [], rfl, rfl, by simp, Nat.zero_le _, by simp⟩
  | cons c rest ih =>
    rw [bytesWithin]
    split
    · next hstop =>
      refine ⟨[], c :: rest, rfl, rfl, by simp, Nat.zero_le _, fun c' hc' => ?_⟩
      obtain rfl : c = c' := by simpa using hc'
      simpa [or_assoc] using hstop
    · next hgo =>
      rw [Bool.or_eq_true, Bool.or_eq_true, decide_eq_true_iff, not_or] at hgo
      obtain ⟨front, back, rfl, hsize, hfront, hunits, hstop⟩ := ih (units - Text.unitSize c)
      refine ⟨c :: front, back, rfl, by rw [Text.byteSize_cons, hsize], ?_, ?_, fun c' hc' => ?_⟩
      · intro c' hc'
        rcases List.mem_cons.mp hc' with rfl | hmem
        · simpa using hgo.1
        · exact hfront c' hmem
      · rw [Text.unitCount_cons]
        omega
      · rw [Text.unitCount_cons]
        exact (hstop c' hc').imp_right fun hlt => by omega

theorem unitsWithin_le (units bytes : Nat) (t : Text) :
    unitsWithin units bytes t ≤ units + t.unitCount := by
  induction t generalizing units bytes with
  | nil => cases bytes <;> simp [unitsWithin]
  | cons c rest ih =>
    cases bytes with
    | zero => simp [unitsWithin]
    | succ bytes =>
      rw [unitsWithin, Text.unitCount_cons]
      split
      · have := ih (units + Text.unitSize c) (bytes + 1 - c.utf8Size)
        omega
      · exact Nat.zero_le _

end Line

/-! ## Positions in a text -/

theorem addChecked_ne_none {a b : UInt32} (h : a.toNat + b.toNat < 4294967296) :
    addChecked a b ≠ none := by
  have hfits : a.toNat + b.toNat < UInt32.size := h
  rw [addChecked, if_pos hfits]
  exact Option.some_ne_none _

/-- Columns are added on the first line only, lines on all others. -/
theorem Position.within_ne_none {start position : Position}
    (hcharacter : position.line = 0 → start.character.toNat + position.character.toNat < 4294967296)
    (hline : position.line ≠ 0 → start.line.toNat + position.line.toNat < 4294967296) :
    within start position ≠ none := by
  unfold within
  by_cases hfirst : position.line = 0
  · obtain ⟨sum, hsum⟩ := Option.ne_none_iff_exists'.mp (addChecked_ne_none (hcharacter hfirst))
    rw [if_pos hfirst, hsum]
    exact Option.some_ne_none _
  · obtain ⟨sum, hsum⟩ := Option.ne_none_iff_exists'.mp (addChecked_ne_none (hline hfirst))
    rw [if_neg hfirst, hsum]
    exact Option.some_ne_none _

namespace LineMap

theorem length_lines_le (t : Text) : (ofText t).lines.length ≤ t.byteSize + 1 := by
  rw [ofText, Line.length_place]
  exact Line.length_cut_le t

theorem lineAt_le (t : Text) (offset : Nat) : (ofText t).lineAt offset ≤ t.byteSize := by
  have hindex : (ofText t).lines.findIdx (fun line => offset < line.start) ≤
      (ofText t).lines.length := List.findIdx_le_length
  have := length_lines_le t
  rw [lineAt]
  omega

/-- The text in front of a line and the text from its start on. -/
theorem exists_of_getElem?_lines {t : Text} {index : Nat} {line : Line}
    (h : (ofText t).lines[index]? = some line) :
    ∃ before after, Line.cut t = before ++ line.text :: after ∧
      t = before.flatten ++ (line.text ++ after.flatten) ∧
      line.start = Text.byteSize before.flatten := by
  obtain ⟨before, after, hcut, -, hstart⟩ := Line.exists_of_getElem?_place h
  refine ⟨before, after, hcut, ?_, by rw [hstart, Nat.zero_add]⟩
  rw [← Line.flatten_cut t, hcut, List.flatten_append, List.flatten_cons]

theorem unitCount_line_le {t : Text} {index : Nat} {line : Line}
    (h : (ofText t).lines[index]? = some line) : line.text.unitCount ≤ t.byteSize := by
  obtain ⟨before, after, -, heq, -⟩ := exists_of_getElem?_lines h
  have hline := Text.unitCount_le_byteSize line.text
  have hsize : t.byteSize =
      Text.byteSize before.flatten + (line.text.byteSize + Text.byteSize after.flatten) := by
    rw [← Text.byteSize_append, ← Text.byteSize_append, ← heq]
  omega

theorem columnAt_le (t : Text) (offset : Nat) : (ofText t).columnAt offset ≤ t.byteSize := by
  rw [columnAt]
  split
  · next line hline =>
    have hunits := Line.unitsWithin_le 0 (offset - line.start) line.text
    have := unitCount_line_le hline
    rw [Line.columnAt]
    omega
  · exact Nat.zero_le _

/-- In a text of less than 2^32 bytes the numbers of a position are exact. -/
theorem toNat_positionAt {t : Text} (ht : t.byteSize < 4294967296) (offset : Nat) :
    ((ofText t).positionAt offset).line.toNat = (ofText t).lineAt offset ∧
      ((ofText t).positionAt offset).character.toNat = (ofText t).columnAt offset := by
  have hline := lineAt_le t offset
  have hcolumn := columnAt_le t offset
  constructor
  · exact UInt32.toNat_ofNat_of_lt' (by rw [UInt32.size]; omega)
  · exact UInt32.toNat_ofNat_of_lt' (by rw [UInt32.size]; omega)

/-- A text that starts with a line terminator has its third byte on another line. -/
theorem lineAt_pos {c : Char} {rest : Text} (hc : c = '\n' ∨ c = '\r') {offset : Nat}
    (hoffset : 2 ≤ offset) : 0 < (ofText (c :: rest)).lineAt offset := by
  have hsize : c.utf8Size = 1 := by rcases hc with rfl | rfl <;> rfl
  obtain ⟨first, second, more, hcut, hfirst⟩ : ∃ first second more,
      Line.cut (c :: rest) = first :: second :: more ∧ Text.byteSize first ≤ 2 := by
    obtain ⟨line, more, hrest⟩ := List.exists_cons_of_ne_nil (Line.cut_ne_nil rest)
    rw [Line.cut, hrest]
    split
    · exact ⟨[c], line, more, rfl, by simp [hsize]⟩
    · next hends =>
      -- a carriage return and a line feed are one terminator
      obtain ⟨rfl, hfeed⟩ : c = '\r' ∧ rest.head? = some '\n' := by
        rcases hc with rfl | rfl
        · simp [Line.endsWith] at hends
        · simpa [Line.endsWith] using hends
      obtain ⟨rest', rfl⟩ := List.head?_eq_some_iff.mp hfeed
      have hends' : Line.endsWith '\n' rest' = true := rfl
      rw [Line.cut, if_pos hends'] at hrest
      obtain ⟨rfl, rfl⟩ := List.cons.inj hrest
      obtain ⟨second, more', hcut⟩ := List.exists_cons_of_ne_nil (Line.cut_ne_nil rest')
      exact ⟨['\r', '\n'], second, more', by rw [hcut], by decide⟩
  rw [lineAt, ofText, hcut, Line.place, Line.place, List.findIdx_cons, List.findIdx_cons]
  have hstart : ¬ offset < 0 := Nat.not_lt_zero offset
  have hstart' : ¬ offset < 0 + Text.byteSize first := by omega
  simp only [hstart, hstart', decide_false, cond_false]
  omega

/-- What is known of a text cut out of a document: it is no larger, it starts on one of its lines, and
    it starts with a terminator, or is empty, if its column lies past the end of the line. -/
theorem slice?_eq_some {t part : Text} {range : Range} (h : (ofText t).slice? range = some part) :
    part.byteSize ≤ t.byteSize ∧ range.start.line.toNat ≤ t.byteSize ∧
      (range.start.character.toNat ≤ t.byteSize ∨ ∀ c ∈ part.head?, c = '\n' ∨ c = '\r') := by
  obtain ⟨start, hstart, h⟩ := Option.bind_eq_some_iff.mp h
  obtain ⟨stop, -, h⟩ := Option.bind_eq_some_iff.mp h
  obtain ⟨line, hline, rfl⟩ := Option.map_eq_some_iff.mp hstart
  obtain ⟨front, back, hpart, hfront⟩ := Text.between?_eq_some h
  replace hpart : t = front ++ (part ++ back) := hpart
  refine ⟨?_, ?_, ?_⟩
  · rw [hpart, Text.byteSize_append, Text.byteSize_append]
    omega
  · have hindex := (List.getElem?_eq_some_iff.mp hline).1
    have := length_lines_le t
    omega
  · obtain ⟨before, after, hcut, heq, hplace⟩ := exists_of_getElem?_lines hline
    obtain ⟨walked, left, hline', hsize, hwalked, -, hstop⟩ :=
      Line.exists_of_bytesWithin range.start.character.toNat line.text
    have hend : range.start.character.toNat ≤ line.text.unitCount ∨
        ∀ c ∈ left.head?, c = '\n' ∨ c = '\r' := by
      rw [hline', Text.unitCount_append]
      cases left with
      | nil => exact .inr (by simp)
      | cons c left =>
        rcases hstop c rfl with hterminator | hcolumn
        · exact .inr (by simpa using hterminator)
        · rw [Text.unitCount_cons]
          exact .inl (by omega)
    rcases hend with hcolumn | hterminator
    · exact .inl (Nat.le_trans hcolumn (unitCount_line_le hline))
    · -- both cuts are at the same offset, so the part starts where the walk along the line ended
      have hsplit : part ++ back = left ++ after.flatten := by
        have hsame : Text.byteSize (before.flatten ++ walked) = Text.byteSize front := by
          rw [Text.byteSize_append, hsize, hfront, hplace]
        have hcut₁ := Text.splitAt?_append front (part ++ back)
        have hcut₂ := Text.splitAt?_append (before.flatten ++ walked) (left ++ after.flatten)
        rw [List.append_assoc, ← List.append_assoc walked, ← hline', ← heq, hsame] at hcut₂
        rw [← hpart, hcut₂] at hcut₁
        exact (Prod.ext_iff.mp (Option.some.inj hcut₁)).2.symm
      refine .inr fun c hc => ?_
      have hhead : (part ++ back).head? = some c := by
        rw [List.head?_append, Option.mem_def.mp hc]
        rfl
      rw [hsplit] at hhead
      cases left with
      | cons first left => exact hterminator c hhead
      | nil =>
        -- the whole line was walked, so it has no terminator and is the last
        exfalso
        rcases Classical.em (after = []) with rfl | hafter
        · simp at hhead
        · obtain ⟨c', hmem, hc'⟩ := Line.exists_terminator hcut hafter
          rw [hline', List.append_nil] at hmem
          exact hwalked c' hmem hc'

end LineMap

/-! ## Offsets of references -/

namespace SupertypeClauses

/-- The offsets of all references. -/
def offsets (clauses : SupertypeClauses) : List Nat :=
  clauses.extended.toList ++ clauses.extendedNames ++ clauses.implementedNames

/-- No reference before an offset that is at most eight bytes ahead: a keyword and a blank take as
    many. In a clause the offset with what is still to be skipped has passed them, and only in a clause
    a name is expected. -/
structure State.Late (bound : Nat) (state : State) : Prop where
  offset : bound ≤ state.offset + 8
  clause : state.clause.isSome → bound ≤ state.offset + state.skip
  expecting : state.expecting → state.clause.isSome
  found : ∀ offset ∈ state.found.offsets, bound ≤ offset

theorem State.late_initial : State.initial.Late 8 := by
  constructor <;> simp [State.initial, empty, offsets]

theorem Keyword.exists_of_blanksAfter? {keyword : Keyword} {t blanks : Text}
    (h : keyword.blanksAfter? t = some blanks) :
    ∃ later, blanks ≠ [] ∧ (∀ c ∈ blanks, Text.isBlank c = true) ∧
      t = keyword.letters ++ blanks ++ later ∧ later.leadingBlanks = [] := by
  rw [Keyword.blanksAfter?] at h
  split at h
  · next hletters =>
    obtain ⟨rest, rfl⟩ := List.isPrefixOf_iff_prefix.mp hletters
    rw [List.drop_left] at h
    split at h
    · cases h
    · next hne =>
      cases h
      refine ⟨Text.trimStart rest, fun hnil => hne hnil, List.all_eq_true.mp List.all_takeWhile, ?_,
        Text.takeWhile_dropWhile rest⟩
      rw [List.append_assoc, Text.leadingBlanks_append_trimStart]
  · cases h

/-- The opening of a clause: a keyword and all the blanks behind it, after no identifier character. -/
theorem exists_of_opening? {before : Option Char} {t spelled : Text} {keyword : Keyword}
    (h : opening? before t = some (keyword, spelled)) :
    ∃ blanks later, blanks ≠ [] ∧ (∀ c ∈ blanks, Text.isBlank c = true) ∧
      spelled = keyword.letters ++ blanks ∧ t = spelled ++ later ∧
      ¬ before.any Text.isIdentifierPart = true ∧ later.leadingBlanks = [] := by
  rw [opening?] at h
  split at h
  · cases h
  · next hbefore =>
    split at h
    · next blanks hextending =>
      cases h
      obtain ⟨later, hne, hblank, ht, hlater⟩ := Keyword.exists_of_blanksAfter? hextending
      exact ⟨blanks, later, hne, hblank, rfl, ht, hbefore, hlater⟩
    · obtain ⟨blanks, himplementing, heq⟩ := Option.map_eq_some_iff.mp h
      cases heq
      obtain ⟨later, hne, hblank, ht, hlater⟩ := Keyword.exists_of_blanksAfter? himplementing
      exact ⟨blanks, later, hne, hblank, rfl, ht, hbefore, hlater⟩

/-- The opening of a clause has at least eight characters. -/
theorem length_of_opening? {before : Option Char} {t spelled : Text} {keyword : Keyword}
    (h : opening? before t = some (keyword, spelled)) : 8 ≤ spelled.length := by
  obtain ⟨blanks, later, hne, -, rfl, -, -⟩ := exists_of_opening? h
  have hpos : 0 < blanks.length := List.length_pos_iff.mpr hne
  have hletters : 7 ≤ keyword.letters.length := by cases keyword <;> decide
  rw [List.length_append]
  omega

theorem mem_offsets_extended {clauses : SupertypeClauses} {after offset : Nat}
    (h : offset ∈ { clauses with extended := clauses.extended.or (some after) }.offsets) :
    offset = after ∨ offset ∈ clauses.offsets := by
  cases hextended : clauses.extended with
  | none => simpa [offsets, hextended] using h
  | some first =>
    right
    simpa [offsets, hextended] using h

theorem mem_offsets_addName {clauses : SupertypeClauses} {offset other : Nat}
    {clause : Option Keyword} (h : other ∈ (addName clauses offset clause).offsets) :
    other = offset ∨ other ∈ clauses.offsets := by
  rcases clause with _ | _ | _ <;>
    simp only [addName, offsets, List.mem_append, List.mem_singleton] at h ⊢ <;> grind

/-- Outside of all brackets one step adds references only past the bound. -/
theorem State.Late.stepOutside {bound : Nat} {state : State} (h : state.Late bound)
    (hskip : state.skip = 0) (c : Char) (rest : Text) :
    ((state.stepOutside c rest).clause.isSome →
        bound ≤ state.offset + 1 + (state.stepOutside c rest).skip) ∧
      ((state.stepOutside c rest).expecting → (state.stepOutside c rest).clause.isSome) ∧
      ∀ offset ∈ (state.stepOutside c rest).found.offsets, bound ≤ offset := by
  have hahead := h.offset
  have hclause : state.clause.isSome → bound ≤ state.offset := by
    intro hsome
    have := h.clause hsome
    omega
  rw [State.stepOutside]
  split
  · next hcomma =>
    rw [Bool.and_eq_true] at hcomma
    refine ⟨fun hsome => ?_, fun _ => hcomma.2, h.found⟩
    have := hclause hsome
    dsimp only
    omega
  · split
    · next keyword spelled hopening =>
      have hlength := length_of_opening? hopening
      have hsize := Text.length_le_byteSize spelled
      refine ⟨fun _ => ?_, fun _ => rfl, ?_⟩
      · dsimp only
        omega
      · cases keyword with
        | implementing => exact h.found
        | extending =>
          intro offset hoffset
          rcases mem_offsets_extended hoffset with rfl | hmem
          · omega
          · exact h.found offset hmem
    · split
      · next hname =>
        rw [Bool.and_eq_true] at hname
        have hsome := h.expecting hname.1
        have hoffset := hclause hsome
        refine ⟨fun _ => ?_, by rintro ⟨⟩, ?_⟩
        · dsimp only
          omega
        · intro other hother
          rcases mem_offsets_addName hother with rfl | hmem
          · exact hoffset
          · exact h.found other hmem
      · refine ⟨fun hsome => ?_, h.expecting, h.found⟩
        have := hclause hsome
        omega

theorem State.Late.step {bound : Nat} {state : State} (h : state.Late bound) (c : Char) (rest : Text) :
    (state.step c rest).Late bound := by
  have hpos := c.utf8Size_pos
  have hahead : bound ≤ state.offset + c.utf8Size + 8 := by
    have := h.offset
    omega
  rw [State.step]
  split
  · refine ⟨hahead, fun hsome => ?_, h.expecting, h.found⟩
    have := h.clause hsome
    dsimp only
    omega
  · next hskip =>
    have hskip' : state.skip = 0 := by simpa using hskip
    have hlater : state.clause.isSome → bound ≤ state.offset + c.utf8Size + state.skip := by
      intro hsome
      have := h.clause hsome
      omega
    split
    · exact ⟨hahead, hlater, h.expecting, h.found⟩
    · split
      · exact ⟨hahead, hlater, h.expecting, h.found⟩
      · split
        · exact ⟨hahead, hlater, h.expecting, h.found⟩
        · obtain ⟨hclause, hexpecting, hfound⟩ := h.stepOutside hskip' c rest
          refine ⟨hahead, fun hsome => ?_, hexpecting, hfound⟩
          have := hclause hsome
          dsimp only
          omega

theorem run_ge {bound : Nat} {state : State} (h : state.Late bound) (t : Text) :
    ∀ offset ∈ (run state t).offsets, bound ≤ offset := by
  induction t generalizing state with
  | nil => exact h.found
  | cons c rest ih =>
    rw [run]
    split
    · exact h.found
    · exact ih (h.step c rest)

/-- All references of a text stand past its eighth byte. -/
theorem scan_ge (t : Text) : ∀ offset ∈ (scan t).offsets, 8 ≤ offset :=
  run_ge State.late_initial t

/-! ## Positions of references -/

/-- Offsets past the second byte of a text cut out of a small document have positions there. -/
theorem positionOf_ne_none {t part : Text} (ht : t.byteSize < 2147483648) {range : Range}
    (hpart : (LineMap.ofText t).slice? range = some part) (hne : part ≠ []) {offset : Nat}
    (hoffset : 2 ≤ offset) : positionOf (LineMap.ofText part) range.start offset ≠ none := by
  obtain ⟨hsize, hline, hcolumn⟩ := LineMap.slice?_eq_some hpart
  obtain ⟨hlineNat, hcolumnNat⟩ := LineMap.toNat_positionAt (t := part) (by omega) offset
  have hlineAt := LineMap.lineAt_le part offset
  have hcolumnAt := LineMap.columnAt_le part offset
  refine Position.within_ne_none (fun hfirst => ?_) (fun _ => by omega)
  -- on the first line the column counts, so the declaration does not start past the end of its line
  have hstart : range.start.character.toNat ≤ t.byteSize := by
    rcases hcolumn with hstart | hterminator
    · exact hstart
    · exfalso
      obtain ⟨c, rest, rfl⟩ := List.exists_cons_of_ne_nil hne
      have hpos : 0 < (LineMap.ofText (c :: rest)).lineAt offset :=
        LineMap.lineAt_pos (hterminator c rfl) hoffset
      rw [← hlineNat, hfirst] at hpos
      cases hpos
  omega

end SupertypeClauses

/-- A list of answers all of which are there. -/
theorem mapM_ne_none {α β : Type} {f : α → Option β} {as : List α} (h : ∀ a ∈ as, f a ≠ none) :
    as.mapM f ≠ none := by
  induction as with
  | nil => exact Option.some_ne_none _
  | cons a as ih =>
    obtain ⟨b, hb⟩ := Option.ne_none_iff_exists'.mp (h a List.mem_cons_self)
    obtain ⟨bs, hbs⟩ := Option.ne_none_iff_exists'.mp
      (ih fun a' ha' => h a' (List.mem_cons_of_mem _ ha'))
    rw [List.mapM_cons, hb, hbs]
    exact Option.some_ne_none _

namespace Declaration

/-- A declaration has references if all the offsets in its text have positions. -/
theorem references?_ne_none {declaration : Declaration}
    (h : ∀ offset ∈ (SupertypeClauses.scan declaration.text.toList).offsets,
      SupertypeClauses.positionOf (LineMap.ofText declaration.text.toList) declaration.range.start
        offset ≠ none)
    (kind : TypeKind) : declaration.references? kind ≠ none := by
  have hpositions : ∀ offsets : List Nat,
      offsets ⊆ (SupertypeClauses.scan declaration.text.toList).offsets →
      ∃ positions, offsets.mapM (SupertypeClauses.positionOf
        (LineMap.ofText declaration.text.toList) declaration.range.start) = some positions :=
    fun offsets hsub =>
      Option.ne_none_iff_exists'.mp (mapM_ne_none fun offset hmem => h offset (hsub hmem))
  unfold references?
  dsimp only
  cases kind with
  | classType =>
    obtain ⟨classes, hclasses⟩ := hpositions
      (SupertypeClauses.scan declaration.text.toList).extended.toList
      (by simp [SupertypeClauses.offsets])
    obtain ⟨interfaces, hinterfaces⟩ := hpositions
      (SupertypeClauses.scan declaration.text.toList).implementedNames
      (by simp [SupertypeClauses.offsets])
    dsimp only
    rw [hclasses, hinterfaces]
    exact Option.some_ne_none _
  | interfaceType =>
    obtain ⟨interfaces, hinterfaces⟩ := hpositions
      (SupertypeClauses.scan declaration.text.toList).extendedNames
      (by simp [SupertypeClauses.offsets])
    dsimp only
    rw [hinterfaces]
    exact Option.some_ne_none _

/-- **References stay in range.** All offsets in the text of a declaration of a document of less than
    2^31 bytes have positions, whatever its outline says. -/
theorem positionOf_ofSymbol_ne_none {t : Text} (ht : t.byteSize < 2147483648) (uri : String)
    (symbol : DocumentSymbol) {offset : Nat}
    (hmem : offset ∈
      (SupertypeClauses.scan (ofSymbol uri (LineMap.ofText t) symbol).text.toList).offsets) :
    SupertypeClauses.positionOf
      (LineMap.ofText (ofSymbol uri (LineMap.ofText t) symbol).text.toList) symbol.range.start
      offset ≠ none := by
  have hoffset := SupertypeClauses.scan_ge _ offset hmem
  cases hslice : (LineMap.ofText t).slice? symbol.range with
  | none =>
    have htext : (ofSymbol uri (LineMap.ofText t) symbol).text.toList = [] := by
      simp [ofSymbol, hslice]
    rw [htext] at hmem
    cases hmem
  | some part =>
    have htext : (ofSymbol uri (LineMap.ofText t) symbol).text.toList = part := by
      simp [ofSymbol, hslice]
    rw [htext] at hmem ⊢
    refine SupertypeClauses.positionOf_ne_none ht hslice ?_ (by omega)
    rintro rfl
    cases hmem

end Declaration
end Lineage
