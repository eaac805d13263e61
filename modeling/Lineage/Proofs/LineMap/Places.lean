import Lineage.Proofs.Clause.Positions

set_option autoImplicit false

/-! # Places along a text

A place is a line and a column without a bound. Walking along a text, each character moves the place to
the next line or to a later column, and what a line map computes from the lines of a text is the place
that the walk has reached (`toPlace_positionAt`). Three facts about positions follow from facts about
the walk: they are ordered as their offsets (`positionAt_lt_iff`), the position in a part of a text and
the position in the whole differ by where the part starts (`within_positionAt`), and a position
leads back to its offset (`offsetAt?_positionAt`).

A carriage return and a line feed are one terminator. A cut between them (`Text.SplitsTerminator`) has
a position like any other place, but no position leads to it, and what stands before it would end with
a line of its own. -/

namespace Lineage

/-! ## Cuts of a text -/

namespace Text

/-- A cut falls between a carriage return and its line feed. -/
def SplitsTerminator (front back : Text) : Prop :=
  front.getLast? = some '\r' ∧ back.head? = some '\n'

instance (front back : Text) : Decidable (SplitsTerminator front back) :=
  inferInstanceAs (Decidable (front.getLast? = some '\r' ∧ back.head? = some '\n'))

/-- A text can be cut at an offset. -/
def CutsAt (t : Text) (offset : Nat) : Prop :=
  ∃ front back, t = front ++ back ∧ front.byteSize = offset

theorem eq_nil_of_byteSize {t : Text} (h : t.byteSize = 0) : t = [] := by
  have := length_le_byteSize t
  exact List.length_eq_zero_iff.mp (by omega)

/-- A cut in front of a word splits no terminator. -/
theorem not_splitsTerminator (front : Text) {back : Text} (h : back.word ≠ []) :
    ¬ SplitsTerminator front back := by
  rintro ⟨-, hfeed⟩
  obtain ⟨rest, rfl⟩ := List.head?_eq_some_iff.mp hfeed
  exact h (List.takeWhile_cons_of_neg (by decide))

/-- Two cuts leave a part between them. -/
theorem CutsAt.exists_between {t : Text} {start stop : Nat} (hstart : t.CutsAt start)
    (hstop : t.CutsAt stop) (hle : start ≤ stop) :
    ∃ front part back, t = front ++ (part ++ back) ∧ front.byteSize = start ∧
      (front ++ part).byteSize = stop := by
  obtain ⟨front, back, rfl, hfront⟩ := hstart
  obtain ⟨front', back', heq, hfront'⟩ := hstop
  rcases List.append_eq_append_iff.mp heq with ⟨part, rfl, rfl⟩ | ⟨part, rfl, rfl⟩
  · exact ⟨front, part, back', rfl, hfront, hfront'⟩
  · have hpart : byteSize part = 0 := by
      rw [byteSize_append] at hfront
      omega
    obtain rfl := eq_nil_of_byteSize hpart
    exact ⟨front', [], back, by simp, by simpa using hfront, by simpa using hfront'⟩

theorem between?_append (front part back : Text) :
    between? front.byteSize (front ++ part).byteSize (front ++ (part ++ back)) = some part := by
  have hle : ¬ (front ++ part).byteSize < front.byteSize := by
    rw [byteSize_append]
    omega
  have hsize : (front ++ part).byteSize - front.byteSize = part.byteSize := by
    rw [byteSize_append]
    omega
  rw [between?, if_neg hle, drop?_eq, splitAt?_append, hsize]
  simp [splitAt?_append]

end Text

/-! ## Walking -/

/-- A line and a column. -/
structure Place where
  line : Nat
  column : Nat
deriving DecidableEq

namespace Place

/-- The first place of a text. -/
def zero : Place := ⟨0, 0⟩

instance : LT Place where
  lt a b := a.line < b.line ∨ (a.line = b.line ∧ a.column < b.column)

theorem lt_iff {a b : Place} :
    a < b ↔ a.line < b.line ∨ (a.line = b.line ∧ a.column < b.column) := Iff.rfl

theorem lt_trans {a b c : Place} (hab : a < b) (hbc : b < c) : a < c := by
  rw [lt_iff] at *
  omega

theorem lt_irrefl (a : Place) : ¬ a < a := by
  rw [lt_iff]
  omega

/-- The place behind the character `c`, which has `rest` behind it. -/
def next (place : Place) (c : Char) (rest : Text) : Place :=
  if Line.endsWith c rest then ⟨place.line + 1, 0⟩
  else ⟨place.line, place.column + Text.unitSize c⟩

/-- The place behind the text `front`, which starts at a place and has `back` behind it. -/
def after : Place → (front back : Text) → Place
  | place, [], _ => place
  | place, c :: front, back => after (place.next c (front ++ back)) front back

/-- The place in the whole of a place in a part that starts at `start`. -/
def within (start place : Place) : Place :=
  if place.line = 0 then ⟨start.line, start.column + place.column⟩
  else ⟨start.line + place.line, place.column⟩

theorem lt_next (place : Place) (c : Char) (rest : Text) : place < place.next c rest := by
  have := Text.unitSize_pos c
  rw [next, lt_iff]
  split
  · exact .inl (Nat.lt_succ_self _)
  · exact .inr ⟨rfl, by dsimp only; omega⟩

theorem after_append (place : Place) (front part back : Text) :
    place.after (front ++ part) back = (place.after front (part ++ back)).after part back := by
  induction front generalizing place with
  | nil => rfl
  | cons c front ih => rw [List.cons_append, after, after, ih, List.append_assoc]

theorem lt_after (place : Place) {front : Text} (back : Text) (h : front ≠ []) :
    place < place.after front back := by
  induction front generalizing place with
  | nil => exact absurd rfl h
  | cons c front ih =>
    rw [after]
    have hnext := place.lt_next c (front ++ back)
    by_cases hfront : front = []
    · rw [hfront] at hnext ⊢
      exact hnext
    · exact lt_trans hnext (ih _ hfront)

/-- What stands behind a text counts only as far as it completes a terminator. -/
theorem after_congr (place : Place) {front back back' : Text}
    (h : Text.SplitsTerminator front back ↔ Text.SplitsTerminator front back') :
    place.after front back = place.after front back' := by
  induction front generalizing place with
  | nil => rfl
  | cons c front ih =>
    rw [after, after]
    cases front with
    | nil =>
      have hends : Line.endsWith c back = Line.endsWith c back' := by
        by_cases hc : c = '\r'
        · have hfeed : back.head? = some '\n' ↔ back'.head? = some '\n' := by
            simpa [Text.SplitsTerminator, hc] using h
          rw [Line.endsWith, Line.endsWith, bne, bne, Bool.eq_iff_iff]
          simp [hfeed]
        · rw [Line.endsWith, Line.endsWith, beq_false_of_ne hc]
          rfl
      simp only [List.nil_append, next, hends]
      rfl
    | cons c' front => exact ih _ (by simpa [Text.SplitsTerminator] using h)

theorem within_zero (start : Place) : start.within zero = start := rfl

theorem next_within (start place : Place) (c : Char) (rest : Text) :
    (start.within place).next c rest = start.within (place.next c rest) := by
  rw [next, next]
  by_cases hends : Line.endsWith c rest
  · rw [if_pos hends, if_pos hends, within, within]
    split <;> simp [*, Nat.add_assoc]
  · rw [if_neg hends, if_neg hends, within, within]
    split <;> simp [*, Nat.add_assoc]

/-- A walk in a part is a walk in the whole, seen from the start of the part. -/
theorem after_within (start place : Place) (front back : Text) :
    (start.within place).after front back = start.within (place.after front back) := by
  induction front generalizing place with
  | nil => rfl
  | cons c front ih => rw [after, after, next_within, ih]

end Place

/-! ## Lines -/

namespace Line

/-- Only the empty text starts with an empty line. -/
theorem later_eq_nil {t : Text} {later : List Text} (h : cut t = [] :: later) : later = [] := by
  cases later with
  | nil => rfl
  | cons next later =>
    have hcut : cut t = [] ++ [] :: next :: later := h
    exact absurd rfl (ended_of_cut hcut).ne_nil

/-- The line of a cut: the walk has passed the lines before it and has `walked` behind it in this one,
    with no terminator but where the cut splits one. -/
theorem exists_walked (front back : Text) :
    ∃ before walked rest later, cut (front ++ back) = before ++ (walked ++ rest) :: later ∧
      front = before.flatten ++ walked ∧ (rest = [] → later = []) ∧
      Place.zero.after front back = ⟨before.length, walked.unitCount⟩ ∧
      (¬ Text.SplitsTerminator front back → ∀ c ∈ walked, ¬ (c = '\n' ∨ c = '\r')) := by
  induction front with
  | nil =>
    obtain ⟨line, more, hback⟩ := List.exists_cons_of_ne_nil (cut_ne_nil back)
    refine ⟨[], [], line, more, hback, rfl, ?_, rfl, by simp⟩
    rintro rfl
    exact later_eq_nil hback
  | cons c front ih =>
    obtain ⟨before, walked, rest, later, hcut, hfront, hlater, hplace, hwalked⟩ := ih
    have hplace' : Place.zero.after (c :: front) back =
        (Place.zero.next c (front ++ back)).within ⟨before.length, walked.unitCount⟩ := by
      rw [Place.after, ← hplace, ← Place.after_within, Place.within_zero]
    have hsplits : Text.SplitsTerminator front back → Text.SplitsTerminator (c :: front) back := by
      rintro ⟨hlast, hhead⟩
      refine ⟨?_, hhead⟩
      rw [List.getLast?_cons, hlast]
      rfl
    by_cases hends : endsWith c (front ++ back) = true
    · refine ⟨[c] :: before, walked, rest, later, ?_, ?_, hlater, ?_, fun h => hwalked (h ∘ hsplits)⟩
      · rw [List.cons_append, cut_cons_of_endsWith hends, hcut]
        rfl
      · rw [hfront]
        rfl
      · rw [hplace', Place.next, if_pos hends, Place.within]
        split <;> simp_all [Place.zero, Nat.add_comm]
    · cases before with
      | nil =>
        refine ⟨[], c :: walked, rest, later, ?_, ?_, hlater, ?_, ?_⟩
        · rw [List.cons_append, cut_cons_of_not_endsWith hends hcut]
          rfl
        · rw [hfront]
          rfl
        · rw [hplace', Place.next, if_neg hends]
          simp [Place.within, Place.zero]
        · intro hunsplit c' hc'
          have hrest := hwalked (hunsplit ∘ hsplits)
          rcases List.mem_cons.mp hc' with rfl | hmem
          · -- a carriage return that ends no line has its line feed behind it
            rintro (rfl | rfl)
            · simp [endsWith] at hends
            · have hfeed : (front ++ back).head? = some '\n' := by
                rw [endsWith, Bool.or_eq_true, not_or] at hends
                simpa [-List.head?_append] using hends.2
              obtain rfl : front = walked := by simpa using hfront
              cases front with
              | nil => exact hunsplit ⟨rfl, hfeed⟩
              | cons first front =>
                obtain rfl : first = '\n' := by simpa using hfeed
                exact hrest _ List.mem_cons_self (.inl rfl)
          · exact hrest c' hmem
      | cons line before =>
        refine ⟨(c :: line) :: before, walked, rest, later, ?_, ?_, hlater, ?_,
          fun h => hwalked (h ∘ hsplits)⟩
        · rw [List.cons_append, cut_cons_of_not_endsWith hends hcut]
          rfl
        · rw [hfront]
          rfl
        · rw [hplace', Place.next, if_neg hends]
          simp [Place.within, Place.zero]

theorem place_append (offset : Nat) (texts more : List Text) :
    place offset (texts ++ more) =
      place offset texts ++ place (offset + Text.byteSize texts.flatten) more := by
  induction texts generalizing offset with
  | nil => rfl
  | cons text rest ih =>
    rw [List.cons_append, place, place, ih, List.flatten_cons, Text.byteSize_append, Nat.add_assoc]
    rfl

theorem start_le_of_mem_place {offset : Nat} {texts : List Text} {line : Line}
    (h : line ∈ place offset texts) :
    offset ≤ line.start ∧ line.start ≤ offset + Text.byteSize texts.flatten := by
  induction texts generalizing offset with
  | nil => cases h
  | cons text rest ih =>
    rw [List.flatten_cons, Text.byteSize_append]
    rcases List.mem_cons.mp h with rfl | hmem
    · dsimp only
      omega
    · have := ih hmem
      omega

/-- The walk back along a line passes what has no terminator. -/
theorem bytesWithin_append {walked : Text} (rest : Text)
    (h : ∀ c ∈ walked, ¬ (c = '\n' ∨ c = '\r')) :
    bytesWithin walked.unitCount (walked ++ rest) = walked.byteSize + bytesWithin 0 rest := by
  induction walked with
  | nil => simp
  | cons c walked ih =>
    have hc := h c List.mem_cons_self
    have hgo : ¬ (c == '\n' || c == '\r' || decide (Text.unitCount (c :: walked) < Text.unitSize c)) := by
      rw [Text.unitCount_cons]
      simp_all
    rw [List.cons_append, bytesWithin, if_neg hgo, Text.unitCount_cons, Nat.add_sub_cancel_left,
      ih fun c' hc' => h c' (List.mem_cons_of_mem _ hc'), Text.byteSize_cons, Nat.add_assoc]

theorem bytesWithin_zero (t : Text) : bytesWithin 0 t = 0 := by
  cases t with
  | nil => rfl
  | cons c rest =>
    have := Text.unitSize_pos c
    rw [bytesWithin, if_pos (by simp [this])]

end Line

/-! ## Positions -/

namespace Position

/-- The place that a position stands for. -/
def toPlace (position : Position) : Place :=
  ⟨position.line.toNat, position.character.toNat⟩

theorem toPlace_injective {a b : Position} (h : a.toPlace = b.toPlace) : a = b := by
  obtain ⟨hline, hcharacter⟩ := Place.mk.inj h
  exact Position.mk.injEq .. ▸ ⟨UInt32.toNat_inj.mp hline, UInt32.toNat_inj.mp hcharacter⟩

theorem lt_iff_toPlace {a b : Position} : a < b ↔ a.toPlace < b.toPlace := by
  show (a.line < b.line ∨ (a.line = b.line ∧ a.character < b.character)) ↔ _
  rw [Place.lt_iff, UInt32.lt_iff_toNat_lt, UInt32.lt_iff_toNat_lt, ← UInt32.toNat_inj]
  rfl

theorem le_iff_not_lt {a b : Position} : a ≤ b ↔ ¬ b < a := by
  show (a.line < b.line ∨ (a.line = b.line ∧ a.character ≤ b.character)) ↔ _
  rw [lt_iff_toPlace, Place.lt_iff, UInt32.lt_iff_toNat_lt, UInt32.le_iff_toNat_le,
    ← UInt32.toNat_inj, toPlace, toPlace]
  dsimp only
  omega

theorem addChecked_of_lt {a b : UInt32} (h : a.toNat + b.toNat < 4294967296) :
    ∃ sum, addChecked a b = some sum ∧ sum.toNat = a.toNat + b.toNat := by
  obtain ⟨sum, hsum⟩ := Option.ne_none_iff_exists'.mp (addChecked_ne_none h)
  exact ⟨sum, hsum, toNat_addChecked hsum⟩

/-- A position that the place in the whole fits into is the position in the whole. -/
theorem within_eq_some {start position whole : Position}
    (h : start.toPlace.within position.toPlace = whole.toPlace) :
    within start position = some whole := by
  have hline := whole.line.toNat_lt
  have hcharacter := whole.character.toNat_lt
  rw [Place.within] at h
  unfold within
  by_cases hfirst : position.line = 0
  · rw [if_pos (by simp [toPlace, hfirst])] at h
    obtain ⟨hline', hcharacter'⟩ := Place.mk.inj h
    obtain ⟨sum, hsum, hnat⟩ := addChecked_of_lt (a := start.character) (b := position.character) (by
      simp only [toPlace] at hcharacter'
      omega)
    rw [if_pos hfirst, hsum]
    refine congrArg some (toPlace_injective ?_)
    rw [← h, toPlace, hnat]
    rfl
  · have hfirst' : ¬ position.toPlace.line = 0 := by
      intro hzero
      exact hfirst (UInt32.toNat_inj.mp hzero)
    rw [if_neg hfirst'] at h
    obtain ⟨hline', hcharacter'⟩ := Place.mk.inj h
    obtain ⟨sum, hsum, hnat⟩ := addChecked_of_lt (a := start.line) (b := position.line) (by
      simp only [toPlace] at hline'
      omega)
    rw [if_neg hfirst, hsum]
    refine congrArg some (toPlace_injective ?_)
    rw [← h, toPlace, hnat]
    rfl

end Position

namespace LineMap

variable {t front part back : Text} {a b offset : Nat}

/-- The line of an offset is the one that the walk has reached. -/
theorem lineAt_walked {before later : List Text} {walked rest : Text}
    (hcut : Line.cut t = before ++ (walked ++ rest) :: later) (hlater : rest = [] → later = []) :
    (ofText t).lineAt (Text.byteSize (before.flatten ++ walked)) = before.length := by
  rw [Text.byteSize_append]
  have hsplit : (ofText t).lines = Line.place 0 (before ++ [walked ++ rest]) ++
      Line.place (Text.byteSize (before ++ [walked ++ rest]).flatten) later := by
    rw [ofText, hcut, List.append_cons, Line.place_append, Nat.zero_add]
  have hreached : ¬ ∃ line ∈ Line.place 0 (before ++ [walked ++ rest]),
      decide (Text.byteSize before.flatten + walked.byteSize < line.start) = true := by
    rintro ⟨line, hline, hstart⟩
    rw [decide_eq_true_iff] at hstart
    rw [Line.place_append, List.mem_append] at hline
    rcases hline with hline | hline
    · have := (Line.start_le_of_mem_place hline).2
      omega
    · obtain rfl := List.mem_singleton.mp hline
      dsimp only at hstart
      omega
  have hnext : (Line.place (Text.byteSize (before ++ [walked ++ rest]).flatten) later).findIdx
      (fun line => Text.byteSize before.flatten + walked.byteSize < line.start) = 0 := by
    cases later with
    | nil => rfl
    | cons line later =>
      have hrest : rest ≠ [] := fun hnil => List.cons_ne_nil _ _ (hlater hnil)
      have hpos : 0 < rest.byteSize := Nat.pos_of_ne_zero fun h => hrest (Text.eq_nil_of_byteSize h)
      have hbehind : Text.byteSize before.flatten + walked.byteSize <
          Text.byteSize (before ++ [walked ++ rest]).flatten := by
        simp only [List.flatten_append, List.flatten_singleton, Text.byteSize_append]
        omega
      rw [Line.place, List.findIdx_cons, decide_eq_true hbehind]
      rfl
  rw [lineAt, hsplit, List.findIdx_append,
    if_neg (fun hlt => hreached (List.findIdx_lt_length.mp hlt)), hnext, Line.length_place]
  simp

theorem getElem?_lines_walked {before later : List Text} {line : Text}
    (hcut : Line.cut t = before ++ line :: later) :
    (ofText t).lines[before.length]? = some ⟨Text.byteSize before.flatten, line⟩ := by
  have hlength : (Line.place 0 before).length = before.length := Line.length_place 0 before
  rw [ofText, hcut, Line.place_append, List.getElem?_append_right (by omega), hlength, Nat.sub_self,
    Line.place, Nat.zero_add]
  rfl

theorem columnAt_walked {before later : List Text} {walked rest : Text}
    (hcut : Line.cut t = before ++ (walked ++ rest) :: later) (hlater : rest = [] → later = []) :
    (ofText t).columnAt (Text.byteSize (before.flatten ++ walked)) = walked.unitCount := by
  have hline := getElem?_lines_walked hcut
  rw [columnAt, lineAt_walked hcut hlater, hline]
  dsimp only
  rw [Line.columnAt, Text.byteSize_append, Nat.add_sub_cancel_left,
    Line.unitsWithin_of_splitAt? (Text.splitAt?_append walked rest), Nat.zero_add]

theorem toPlace_positionAt_walked (hsize : t.byteSize < 4294967296) {before later : List Text}
    {walked rest : Text} (hcut : Line.cut t = before ++ (walked ++ rest) :: later)
    (hlater : rest = [] → later = []) :
    ((ofText t).positionAt (Text.byteSize (before.flatten ++ walked))).toPlace =
      ⟨before.length, walked.unitCount⟩ := by
  obtain ⟨hline, hcolumn⟩ := toNat_positionAt hsize (Text.byteSize (before.flatten ++ walked))
  rw [Position.toPlace, hline, hcolumn, lineAt_walked hcut hlater, columnAt_walked hcut hlater]

/-- The position of a cut is the place that the walk has reached there. -/
theorem toPlace_positionAt (hsize : (front ++ back).byteSize < 4294967296) :
    ((ofText (front ++ back)).positionAt front.byteSize).toPlace = Place.zero.after front back := by
  obtain ⟨before, walked, rest, later, hcut, hfront, hlater, hplace, -⟩ :=
    Line.exists_walked front back
  have hposition := toPlace_positionAt_walked hsize hcut hlater
  rw [← hfront] at hposition
  rw [hposition, hplace]

/-! ## The order of positions -/

theorem positionAt_lt (hsize : (front ++ (part ++ back)).byteSize < 4294967296) (hpart : part ≠ []) :
    (ofText (front ++ (part ++ back))).positionAt front.byteSize <
      (ofText (front ++ (part ++ back))).positionAt (front ++ part).byteSize := by
  rw [Position.lt_iff_toPlace, toPlace_positionAt hsize]
  rw [← List.append_assoc] at hsize ⊢
  rw [toPlace_positionAt hsize, Place.after_append]
  exact Place.lt_after _ back hpart

/-- Positions are ordered as their offsets. -/
theorem positionAt_lt_iff (hsize : t.byteSize < 4294967296) (ha : t.CutsAt a) (hb : t.CutsAt b) :
    (ofText t).positionAt a < (ofText t).positionAt b ↔ a < b := by
  have hlt : ∀ {start stop}, t.CutsAt start → t.CutsAt stop → start < stop →
      (ofText t).positionAt start < (ofText t).positionAt stop := by
    intro start stop hstart hstop hlt
    obtain ⟨front, part, back, rfl, rfl, rfl⟩ := hstart.exists_between hstop (Nat.le_of_lt hlt)
    refine positionAt_lt hsize ?_
    rintro rfl
    simp at hlt
  constructor
  · intro h
    rw [Position.lt_iff_toPlace] at h
    rcases Nat.lt_trichotomy a b with hab | rfl | hba
    · exact hab
    · exact absurd h (Place.lt_irrefl _)
    · have hback := Position.lt_iff_toPlace.mp (hlt hb ha hba)
      exact absurd (Place.lt_trans h hback) (Place.lt_irrefl _)
  · exact hlt ha hb

theorem positionAt_le_iff (hsize : t.byteSize < 4294967296) (ha : t.CutsAt a) (hb : t.CutsAt b) :
    (ofText t).positionAt a ≤ (ofText t).positionAt b ↔ a ≤ b := by
  rw [Position.le_iff_not_lt, positionAt_lt_iff hsize hb ha, Nat.not_lt]

theorem contains_rangeBetween_iff (hsize : t.byteSize < 4294967296) (ha : t.CutsAt a)
    (hb : t.CutsAt b) (hoffset : t.CutsAt offset) :
    ((ofText t).rangeBetween a b).contains ((ofText t).positionAt offset) = true ↔
      a ≤ offset ∧ offset < b := by
  rw [Range.contains, Bool.and_eq_true, decide_eq_true_iff, decide_eq_true_iff, rangeBetween,
    positionAt_le_iff hsize ha hoffset, positionAt_lt_iff hsize hoffset hb]

/-! ## Parts of a text -/

/-- The position of a cut of a part, seen from where the part starts, is that of the cut of the whole:
    the part may start anywhere, but not stop within a terminator. -/
theorem within_positionAt {front inner outer : Text} {back : Text}
    (hsize : (front ++ ((inner ++ outer) ++ back)).byteSize < 4294967296)
    (hsplit : outer = [] → ¬ Text.SplitsTerminator inner back) :
    Position.within ((ofText (front ++ ((inner ++ outer) ++ back))).positionAt front.byteSize)
        ((ofText (inner ++ outer)).positionAt inner.byteSize) =
      some ((ofText (front ++ ((inner ++ outer) ++ back))).positionAt
        (front.byteSize + inner.byteSize)) := by
  have hwhole : front ++ ((inner ++ outer) ++ back) = (front ++ inner) ++ (outer ++ back) := by
    simp
  have hinner : (inner ++ outer).byteSize < 4294967296 := by
    simp only [Text.byteSize_append] at hsize ⊢
    omega
  apply Position.within_eq_some
  rw [toPlace_positionAt hsize, toPlace_positionAt hinner, ← Text.byteSize_append]
  rw [hwhole] at hsize ⊢
  rw [toPlace_positionAt hsize, Place.after_append, ← Place.after_within, Place.within_zero]
  have hback : Text.SplitsTerminator inner outer ↔ Text.SplitsTerminator inner (outer ++ back) := by
    cases outer with
    | nil => simpa [Text.SplitsTerminator] using hsplit rfl
    | cons c outer => exact Iff.rfl
  rw [Place.after_congr _ hback, List.append_assoc]

/-! ## Back to offsets -/

/-- The position of a cut that splits no terminator leads back to it. -/
theorem offsetAt?_positionAt (hsize : (front ++ back).byteSize < 4294967296)
    (hsplit : ¬ Text.SplitsTerminator front back) :
    (ofText (front ++ back)).offsetAt? ((ofText (front ++ back)).positionAt front.byteSize) =
      some front.byteSize := by
  obtain ⟨before, walked, rest, later, hcut, hfront, -, hplace, hwalked⟩ :=
    Line.exists_walked front back
  have hposition := toPlace_positionAt hsize
  rw [hplace] at hposition
  obtain ⟨hline, hcolumn⟩ := Place.mk.inj hposition
  rw [offsetAt?, hline, getElem?_lines_walked hcut, Option.map_some, hcolumn,
    Line.bytesWithin_append rest (hwalked hsplit), Line.bytesWithin_zero, Nat.add_zero,
    ← Text.byteSize_append, ← hfront]

/-- The text between two cuts that split no terminator. -/
theorem slice?_rangeBetween (hsize : (front ++ (part ++ back)).byteSize < 4294967296)
    (hstart : ¬ Text.SplitsTerminator front (part ++ back))
    (hstop : ¬ Text.SplitsTerminator (front ++ part) back) :
    (ofText (front ++ (part ++ back))).slice?
      ((ofText (front ++ (part ++ back))).rangeBetween front.byteSize (front ++ part).byteSize) =
      some part := by
  have hstart' := offsetAt?_positionAt hsize hstart
  rw [← List.append_assoc] at hsize
  have hstop' := offsetAt?_positionAt hsize hstop
  rw [List.append_assoc] at hstop'
  have hle : front.byteSize ≤ (front ++ part).byteSize := by
    rw [Text.byteSize_append]
    omega
  rw [slice?, rangeBetween, hstart', hstop']
  dsimp only [Option.bind_eq_bind, Option.bind_some]
  rw [Nat.max_eq_right hle, ofText]
  exact Text.between?_append front part back

end LineMap
end Lineage
