import Lineage.Proofs.LineMap.Places
import Mathlib.Order.Bounds.Defs

set_option autoImplicit false

/-! # Offsets and positions convert into each other

The places of a text that a position can lead to are the cuts that split no terminator
(`Text.CutsOutsideTerminator`): in front of a character of a line's content, or at the end of the
content. Between these and the positions of a text three laws hold.

* A place of a part of a text, seen from where the part starts, is the place in the whole
  (`positionOf_between`). The part has lines of its own; they are those of the whole as long as the part
  does not stop within a terminator.
* From a place to its position and back nothing is lost, and what lies past the text counts as its
  end (`offsetAt?_positionAt_min`).
* From a position the map goes to the last place on the line that is not past the column
  (`offsetAt?_isGreatest`). So positions need not be checked: only a line that does not exist has no
  offset, and every range between existing lines cuts out some part of the text. -/

namespace Lineage

/-! ## Cuts that split no terminator -/

namespace Text

/-- A text can be cut at an offset, and not between a carriage return and its line feed: there a
    character of a line's content starts, or the content ends. -/
def CutsOutsideTerminator (t : Text) (offset : Nat) : Prop :=
  ∃ front back, t = front ++ back ∧ front.byteSize = offset ∧ ¬ SplitsTerminator front back

variable {t front back : Text} {offset start stop : Nat}

theorem CutsOutsideTerminator.cutsAt (h : t.CutsOutsideTerminator offset) : t.CutsAt offset := by
  obtain ⟨front, back, heq, hsize, -⟩ := h
  exact ⟨front, back, heq, hsize⟩

theorem CutsAt.le_byteSize (h : t.CutsAt offset) : offset ≤ t.byteSize := by
  obtain ⟨front, back, rfl, rfl⟩ := h
  simp [byteSize_append]

/-- There is only one cut at an offset. -/
theorem CutsOutsideTerminator.not_splitsTerminator
    (h : (front ++ back).CutsOutsideTerminator front.byteSize) : ¬ SplitsTerminator front back := by
  obtain ⟨front', back', heq, hsize, hsplit⟩ := h
  have hcut := splitAt?_append front back
  rw [heq, ← hsize, splitAt?_append] at hcut
  simp only [Option.some.injEq, Prod.mk.injEq] at hcut
  rwa [← hcut.1, ← hcut.2]

/-- The end of a text splits no terminator. -/
theorem cutsOutsideTerminator_byteSize (t : Text) : t.CutsOutsideTerminator t.byteSize :=
  ⟨t, [], by simp, rfl, by simp [SplitsTerminator]⟩

/-- A part stops within a terminator only if the whole is cut there. -/
theorem SplitsTerminator.append (h : SplitsTerminator front back) (before : Text) :
    SplitsTerminator (before ++ front) back := by
  refine ⟨?_, h.2⟩
  rw [List.getLast?_append, h.1]
  rfl

/-- Two cuts in order leave a part between them. -/
theorem between?_of_cutsAt (hstart : t.CutsAt start) (hstop : t.CutsAt stop) (hle : start ≤ stop) :
    ∃ front part back, t = front ++ (part ++ back) ∧ front.byteSize = start ∧
      (front ++ part).byteSize = stop ∧ t.between? start stop = some part := by
  obtain ⟨front, part, back, rfl, rfl, rfl⟩ := hstart.exists_between hstop hle
  exact ⟨front, part, back, rfl, rfl, rfl, between?_append front part back⟩

end Text

/-! ## Walks that stay on a line -/

namespace Place

theorem not_after_lt (place : Place) (front back : Text) : ¬ place.after front back < place := by
  by_cases hfront : front = []
  · rw [hfront]
    exact lt_irrefl place
  · intro hlt
    exact lt_irrefl place (lt_trans (lt_after place back hfront) hlt)

theorem next_of_endsWith (place : Place) {c : Char} {rest : Text} (h : Line.endsWith c rest = true) :
    place.next c rest = ⟨place.line + 1, 0⟩ := by
  rw [next, if_pos h]

theorem next_of_not_endsWith (place : Place) {c : Char} {rest : Text}
    (h : ¬ Line.endsWith c rest = true) :
    place.next c rest = ⟨place.line, place.column + Text.unitSize c⟩ := by
  rw [next, if_neg h]

/-- A walk leaves the line with the last character of a terminator. -/
theorem line_lt_after (place : Place) {c : Char} {part back : Text}
    (h : Line.endsWith c (part ++ back) = true) :
    place.line < (place.after (c :: part) back).line := by
  have hle := not_after_lt (place.next c (part ++ back)) part back
  rw [next_of_endsWith place h, lt_iff] at hle
  rw [after, next_of_endsWith place h]
  dsimp only at hle
  omega

/-- A walk that stays on its line, and does not stop within a terminator, passes a character of the
    line's content first. -/
theorem content_of_line_eq {place : Place} {c : Char} {part back : Text}
    (hline : (place.after (c :: part) back).line = place.line)
    (hsplit : ¬ Text.SplitsTerminator (c :: part) back) :
    ¬ (c = '\n' ∨ c = '\r') ∧
      place.column + Text.unitSize c ≤ (place.after (c :: part) back).column := by
  have hends : ¬ Line.endsWith c (part ++ back) = true := fun hends => by
    have := place.line_lt_after hends
    omega
  have hafter : place.after (c :: part) back =
      (⟨place.line, place.column + Text.unitSize c⟩ : Place).after part back := by
    rw [after, next_of_not_endsWith place hends]
  refine ⟨fun hc => ?_, ?_⟩
  · -- a carriage return that ends no line has its line feed behind it, which ends the line
    obtain ⟨rfl, hfeed⟩ : c = '\r' ∧ (part ++ back).head? = some '\n' := by
      rcases hc with rfl | rfl
      · simp [Line.endsWith] at hends
      · simpa [Line.endsWith, -List.head?_append] using hends
    cases part with
    | nil => exact hsplit ⟨rfl, hfeed⟩
    | cons feed part =>
      obtain rfl : feed = '\n' := by simpa using hfeed
      have := line_lt_after ⟨place.line, place.column + Text.unitSize '\r'⟩
        (show Line.endsWith '\n' (part ++ back) = true from rfl)
      rw [hafter] at hline
      dsimp only at this
      omega
  · have hle := not_after_lt ⟨place.line, place.column + Text.unitSize c⟩ part back
    rw [← hafter, lt_iff] at hle
    dsimp only at hle
    omega

end Place

/-! ## The ends of lines and of a text -/

namespace Line

/-- Past the end of a text all its units are counted. -/
theorem unitsWithin_of_byteSize_le {units bytes : Nat} {t : Text} (h : t.byteSize ≤ bytes) :
    unitsWithin units bytes t = units + t.unitCount := by
  induction t generalizing units bytes with
  | nil => cases bytes <;> simp [unitsWithin]
  | cons c rest ih =>
    have hpos := c.utf8Size_pos
    rw [Text.byteSize_cons] at h
    obtain ⟨n, rfl⟩ : ∃ n, bytes = n + 1 := ⟨bytes - 1, by omega⟩
    rw [unitsWithin, if_pos (by omega), ih (by omega), Text.unitCount_cons, Nat.add_assoc]

/-- A line without a terminator is the last one. -/
theorem eq_nil_of_no_terminator {t line : Text} {before later : List Text}
    (hcut : cut t = before ++ line :: later) (hline : ∀ c ∈ line, ¬ (c = '\n' ∨ c = '\r')) :
    later = [] := by
  refine Classical.byContradiction fun hlater => ?_
  obtain ⟨c, hmem, hc⟩ := exists_terminator hcut hlater
  exact hline c hmem hc

end Line

namespace LineMap

variable {source : Text} {start stop offset : Nat}

/-- The part of a text behind the start of a line. -/
theorem eq_append_of_cut {before later : List Text} {walked rest : Text}
    (hcut : Line.cut source = before ++ (walked ++ rest) :: later) :
    source = (before.flatten ++ walked) ++ (rest ++ later.flatten) := by
  rw [← Line.flatten_cut source, hcut]
  simp

/-- No line starts within a terminator. -/
theorem not_splitsTerminator_of_cut {before later : List Text} {line : Text}
    (hcut : Line.cut source = before ++ line :: later) :
    ¬ Text.SplitsTerminator before.flatten (line ++ later.flatten) := by
  rintro ⟨hlast, hfeed⟩
  rcases List.eq_nil_or_concat' before with rfl | ⟨earlier, previous, rfl⟩
  · simp at hlast
  · rw [List.append_assoc, List.singleton_append] at hcut
    have hended := Line.ended_of_cut hcut
    rw [List.flatten_append, List.flatten_singleton, List.getLast?_append_of_ne_nil _ hended.ne_nil]
      at hlast
    refine hended.head?_ne hlast ?_
    cases line with
    | cons c line => exact hfeed
    | nil =>
      -- an empty line is the last one
      rw [List.append_cons] at hcut
      obtain rfl := Line.eq_nil_of_no_terminator hcut (by simp)
      exact hfeed

/-- Past the end of a text the last line goes on. -/
theorem lineAt_of_byteSize_le (h : source.byteSize ≤ offset) :
    (ofText source).lineAt offset = (ofText source).lineCount - 1 := by
  have hnone : (ofText source).lines.findIdx (fun line => offset < line.start) =
      (ofText source).lines.length := by
    rw [List.findIdx_eq_length]
    intro line hline
    have := (Line.start_le_of_mem_place hline).2
    rw [Line.flatten_cut] at this
    simp
    omega
  rw [lineAt, hnone, lineCount]

/-- The position of an offset past the end of a text is that of its end. -/
theorem positionAt_of_byteSize_le (h : source.byteSize ≤ offset) :
    (ofText source).positionAt offset = (ofText source).positionAt source.byteSize := by
  have hline : (ofText source).lineAt offset = (ofText source).lineAt source.byteSize := by
    rw [lineAt_of_byteSize_le h, lineAt_of_byteSize_le (Nat.le_refl _)]
  have hcolumn : (ofText source).columnAt offset = (ofText source).columnAt source.byteSize := by
    rw [columnAt, columnAt, hline]
    split
    · next line hget =>
      obtain ⟨before, after, -, heq, hstart⟩ := exists_of_getElem?_lines hget
      have hend : line.text.byteSize ≤ source.byteSize - line.start := by
        rw [heq, Text.byteSize_append, Text.byteSize_append, hstart]
        omega
      rw [Line.columnAt, Line.columnAt, Line.unitsWithin_of_byteSize_le hend,
        Line.unitsWithin_of_byteSize_le (by omega)]
    · rfl
  rw [positionAt, positionAt, hline, hcolumn]

/-! ## Parts of a text -/

/-- **Places of a part.** Seen from the position where a part starts, the places of the part have
    their positions in the whole, and these fit into words. -/
theorem positionOf_between (hsize : source.byteSize < 4294967296) (hstart : source.CutsAt start)
    (hstop : source.CutsOutsideTerminator stop) (hle : start ≤ stop) :
    ∃ part, source.between? start stop = some part ∧ ∀ offset, part.CutsAt offset →
      SupertypeClauses.positionOf (ofText part) ((ofText source).positionAt start) offset =
        some ((ofText source).positionAt (start + offset)) := by
  obtain ⟨front, part, back, rfl, rfl, rfl, hpart⟩ :=
    Text.between?_of_cutsAt hstart hstop.cutsAt hle
  refine ⟨part, hpart, ?_⟩
  intro offset hoffset
  obtain ⟨inner, outer, rfl, rfl⟩ := hoffset
  refine within_positionAt hsize fun houter hsplit => ?_
  rw [← List.append_assoc] at hstop
  refine hstop.not_splitsTerminator ?_
  rw [houter, List.append_nil]
  exact hsplit.append front

/-- Three lines, the first with a character of two UTF-16 units. -/
def sampleLines : Text := "é😀\r\nb\rc".toList

/-- A part that starts in the first line, and its place in front of the second. -/
theorem positionOf_sampleLines :
    sampleLines.between? 2 9 = some "😀\r\nb".toList ∧
      SupertypeClauses.positionOf (ofText "😀\r\nb".toList) ⟨0, 1⟩ 6 = some ⟨1, 0⟩ := by
  have hpart : sampleLines.between? 2 9 = some "😀\r\nb".toList := by decide
  obtain ⟨part, hpart', hpositions⟩ := @positionOf_between sampleLines 2 9 (by decide)
    ⟨['é'], "😀\r\nb\rc".toList, by decide, by decide⟩
    ⟨"é😀\r\nb".toList, "\rc".toList, by decide, by decide, by decide⟩ (by decide)
  obtain rfl := Option.some.inj (hpart.symm.trans hpart')
  have hstart : (ofText sampleLines).positionAt 2 = ⟨0, 1⟩ := by decide
  have hplace : (ofText sampleLines).positionAt 8 = ⟨1, 0⟩ := by decide
  refine ⟨hpart, ?_⟩
  rw [← hstart, ← hplace]
  exact hpositions 6 ⟨"😀\r\n".toList, ['b'], by decide, by decide⟩

/-! ## From offsets to positions and back -/

/-- **There and back.** The position of a place leads back to it, and that of an offset past the
    text to the end of the text; so the range between two places cuts out what stands between them. -/
theorem offsetAt?_positionAt_min (hsize : source.byteSize < 4294967296) :
    (∀ offset, source.CutsOutsideTerminator offset ∨ source.byteSize < offset →
      (ofText source).offsetAt? ((ofText source).positionAt offset) =
        some (min offset source.byteSize)) ∧
    ∀ start stop, source.CutsOutsideTerminator start → source.CutsOutsideTerminator stop →
      start ≤ stop → ∃ part, source.between? start stop = some part ∧
        (ofText source).slice? ((ofText source).rangeBetween start stop) = some part := by
  have hback : ∀ offset, source.CutsOutsideTerminator offset →
      (ofText source).offsetAt? ((ofText source).positionAt offset) = some offset := by
    intro offset hoffset
    obtain ⟨front, back, rfl, rfl, hsplit⟩ := hoffset
    exact offsetAt?_positionAt hsize hsplit
  refine ⟨?_, ?_⟩
  · intro offset hoffset
    rcases hoffset with hcut | hpast
    · rw [hback offset hcut, Nat.min_eq_left hcut.cutsAt.le_byteSize]
    · rw [positionAt_of_byteSize_le (Nat.le_of_lt hpast),
        hback _ (Text.cutsOutsideTerminator_byteSize source), Nat.min_eq_right (Nat.le_of_lt hpast)]
  · intro start stop hstart hstop hle
    obtain ⟨front, part, back, rfl, rfl, rfl, hpart⟩ :=
      Text.between?_of_cutsAt hstart.cutsAt hstop.cutsAt hle
    rw [← List.append_assoc] at hstop
    exact ⟨part, hpart,
      slice?_rangeBetween hsize hstart.not_splitsTerminator hstop.not_splitsTerminator⟩

/-- The start of a line, an offset past the text, and a part with a terminator in it. -/
theorem offsetAt?_positionAt_sampleLines :
    (ofText sampleLines).offsetAt? ((ofText sampleLines).positionAt 8) = some 8 ∧
      (ofText sampleLines).offsetAt? ((ofText sampleLines).positionAt 40) = some 11 ∧
      (ofText sampleLines).slice? ((ofText sampleLines).rangeBetween 2 8) =
        some "😀\r\n".toList := by
  obtain ⟨hback, hslice⟩ := @offsetAt?_positionAt_min sampleLines (by decide)
  have hstart : sampleLines.CutsOutsideTerminator 2 :=
    ⟨['é'], "😀\r\nb\rc".toList, by decide, by decide, by decide⟩
  have hstop : sampleLines.CutsOutsideTerminator 8 :=
    ⟨"é😀\r\n".toList, "b\rc".toList, by decide, by decide, by decide⟩
  obtain ⟨part, hpart, hrange⟩ := hslice 2 8 hstart hstop (by decide)
  have hpart' : sampleLines.between? 2 8 = some "😀\r\n".toList := by decide
  rw [hrange, ← hpart, hpart']
  exact ⟨hback 8 (.inl hstop), hback 40 (.inr (by decide)), rfl⟩

/-! ## From positions to offsets -/

/-- Only a line that does not exist has no offset. -/
theorem offsetAt?_eq_none_iff (source : Text) (position : Position) :
    (ofText source).offsetAt? position = none ↔
      (ofText source).lineCount ≤ position.line.toNat := by
  rw [offsetAt?, Option.map_eq_none_iff, List.getElem?_eq_none_iff, lineCount]

/-- A cut at which the walk towards a position ends: it is on the line and not past the column, and
    the character behind it ends the content of the line or would pass the column. -/
structure Stops (position : Position) (front back : Text) : Prop where
  unsplit : ¬ Text.SplitsTerminator front back
  line : (Place.zero.after front back).line = position.line.toNat
  column : (Place.zero.after front back).column ≤ position.character.toNat
  stop : ∀ c ∈ back.head?, (c = '\n' ∨ c = '\r') ∨
    position.character.toNat < (Place.zero.after front back).column + Text.unitSize c

/-- The walk along a line that exists ends in the text. -/
theorem exists_stops (hsize : source.byteSize < 4294967296) {position : Position}
    (hline : position.line.toNat < (ofText source).lineCount) :
    ∃ front back, source = front ++ back ∧ Stops position front back ∧
      (ofText source).offsetAt? position = some front.byteSize := by
  obtain ⟨line, hget⟩ : ∃ line, (ofText source).lines[position.line.toNat]? = some line :=
    ⟨_, List.getElem?_eq_getElem hline⟩
  obtain ⟨before, after, hcut, hlength, hstart⟩ := Line.exists_of_getElem?_place hget
  obtain ⟨walked, rest, htext, hbytes, hwalked, hcolumn, hstop⟩ :=
    Line.exists_of_bytesWithin position.character.toNat line.text
  have hafter : rest = [] → after = [] := by
    rintro rfl
    rw [List.append_nil] at htext
    exact Line.eq_nil_of_no_terminator hcut (htext ▸ hwalked)
  have hoffset : (ofText source).offsetAt? position =
      some (Text.byteSize (before.flatten ++ walked)) := by
    rw [offsetAt?, hget, Option.map_some, hstart, ← hbytes, Text.byteSize_append, Nat.zero_add]
  rw [htext] at hcut
  have heq := eq_append_of_cut hcut
  have hplace : Place.zero.after (before.flatten ++ walked) (rest ++ after.flatten) =
      ⟨before.length, walked.unitCount⟩ := by
    have hwhole := hsize
    rw [heq] at hwhole
    rw [← toPlace_positionAt hwhole, ← heq, toPlace_positionAt_walked hsize hcut hafter]
  refine ⟨_, _, heq, ⟨?_, ?_, ?_, ?_⟩, hoffset⟩
  · intro hsplit
    by_cases hnil : walked = []
    · rw [hnil, List.nil_append] at hcut
      rw [hnil, List.append_nil] at hsplit
      exact not_splitsTerminator_of_cut hcut hsplit
    · have hlast : walked.getLast? = some '\r' := by
        simpa [List.getLast?_append, List.getLast?_eq_some_getLast hnil] using hsplit.1
      exact hwalked _ (List.mem_of_getLast? hlast) (.inr rfl)
  · rw [hplace]
    exact hlength
  · rw [hplace]
    exact hcolumn
  · rw [hplace]
    intro c hc
    cases rest with
    | nil => simp [hafter rfl] at hc
    | cons first rest => exact hstop c hc

/-- No place on the line lies between the end of the walk and the column. -/
theorem Stops.column_le {position : Position} {front back front' back' : Text}
    (h : Stops position front back) (heq : front ++ back = front' ++ back')
    (hsplit : ¬ Text.SplitsTerminator front' back')
    (hline : (Place.zero.after front' back').line = position.line.toNat)
    (hcolumn : (Place.zero.after front' back').column ≤ position.character.toNat) :
    (Place.zero.after front' back').column ≤ (Place.zero.after front back).column := by
  have hstart := h.line
  rcases List.append_eq_append_iff.mp heq with ⟨part, rfl, rfl⟩ | ⟨part, rfl, rfl⟩
  · cases part with
    | nil => simp
    | cons c part =>
      -- the walk would have gone on over the content in front of the other place
      rw [Place.after_append] at hline hcolumn
      obtain ⟨hcontent, hpast⟩ := Place.content_of_line_eq (hline.trans hstart.symm)
        fun hsplits => hsplit (hsplits.append front)
      rcases h.stop c rfl with hterminator | hlt
      · exact absurd hterminator hcontent
      · omega
  · have hle := Place.not_after_lt (Place.zero.after front' (part ++ back)) part back
    rw [← Place.after_append, Place.lt_iff] at hle
    omega

/-- The end of the walk is on the line, with the largest column of the places there that are not past
    the column asked for. -/
theorem Stops.isGreatest {position : Position} {front back : Text} (h : Stops position front back)
    (hsize : (front ++ back).byteSize < 4294967296) :
    ((ofText (front ++ back)).positionAt front.byteSize).line = position.line ∧
      IsGreatest {column | column ≤ position.character ∧
          ∃ place, (front ++ back).CutsOutsideTerminator place ∧
            (ofText (front ++ back)).positionAt place = ⟨position.line, column⟩}
        ((ofText (front ++ back)).positionAt front.byteSize).character := by
  obtain ⟨hline, hcolumn⟩ := Place.mk.inj (toPlace_positionAt hsize)
  have hsame : ((ofText (front ++ back)).positionAt front.byteSize).line = position.line :=
    UInt32.toNat_inj.mp (hline.trans h.line)
  refine ⟨hsame, ⟨?_, ?_⟩, ?_⟩
  · rw [UInt32.le_iff_toNat_le, hcolumn]
    exact h.column
  · exact ⟨front.byteSize, ⟨front, back, rfl, rfl, h.unsplit⟩, by rw [← hsame]⟩
  · intro column hmem
    obtain ⟨hle, place, ⟨front', back', heq, rfl, hsplit⟩, hposition⟩ := hmem
    have hplace : Place.zero.after front' back' = ⟨position.line.toNat, column.toNat⟩ := by
      have hwhole := hsize
      rw [heq] at hwhole hposition
      rw [← toPlace_positionAt hwhole, hposition]
      rfl
    have hgreatest := h.column_le heq hsplit (by rw [hplace])
      (by rw [hplace]; exact UInt32.le_iff_toNat_le.mp hle)
    rw [hplace] at hgreatest
    rw [UInt32.le_iff_toNat_le, hcolumn]
    exact hgreatest

/-- A range has a text exactly if both its lines exist, whatever its columns are. -/
theorem isSome_slice?_iff (hsize : source.byteSize < 4294967296) (range : Range) :
    ((ofText source).slice? range).isSome = true ↔
      range.start.line.toNat < (ofText source).lineCount ∧
        range.stop.line.toNat < (ofText source).lineCount := by
  constructor
  · intro hsome
    refine ⟨Nat.lt_of_not_le fun hle => ?_, Nat.lt_of_not_le fun hle => ?_⟩
    · have hnone := (offsetAt?_eq_none_iff source range.start).mpr hle
      simp [slice?, hnone] at hsome
    · have hnone := (offsetAt?_eq_none_iff source range.stop).mpr hle
      simp [slice?, hnone] at hsome
  · rintro ⟨hstart, hstop⟩
    obtain ⟨front, back, heq, -, hoffset⟩ := exists_stops hsize hstart
    obtain ⟨front', back', heq', -, hoffset'⟩ := exists_stops hsize hstop
    have hcut : source.CutsAt front.byteSize := ⟨front, back, heq, rfl⟩
    have hcut' : source.CutsAt (max front.byteSize front'.byteSize) := by
      rcases Nat.le_total front.byteSize front'.byteSize with hle | hle
      · rw [Nat.max_eq_right hle]
        exact ⟨front', back', heq', rfl⟩
      · rwa [Nat.max_eq_left hle]
    obtain ⟨-, part, -, -, -, -, hpart⟩ := Text.between?_of_cutsAt hcut hcut' (Nat.le_max_left _ _)
    replace hpart : (ofText source).source.between? front.byteSize
      (max front.byteSize front'.byteSize) = some part := hpart
    simp [slice?, hoffset, hoffset', hpart]

/-- **Clamping.** A position whose line exists leads to the last place on that line that is not past
    its column; so the range between two positions cuts out a part of the text exactly if both their
    lines exist. -/
theorem offsetAt?_isGreatest (hsize : source.byteSize < 4294967296) :
    (∀ position : Position,
      ((ofText source).offsetAt? position = none ↔
        (ofText source).lineCount ≤ position.line.toNat) ∧
      (position.line.toNat < (ofText source).lineCount →
        ∃ offset, (ofText source).offsetAt? position = some offset ∧
          source.CutsOutsideTerminator offset ∧ offset ≤ source.byteSize ∧
          ((ofText source).positionAt offset).line = position.line ∧
          IsGreatest {column | column ≤ position.character ∧
              ∃ place, source.CutsOutsideTerminator place ∧
                (ofText source).positionAt place = ⟨position.line, column⟩}
            ((ofText source).positionAt offset).character)) ∧
    ∀ range : Range, ((ofText source).slice? range).isSome = true ↔
      range.start.line.toNat < (ofText source).lineCount ∧
        range.stop.line.toNat < (ofText source).lineCount := by
  refine ⟨?_, isSome_slice?_iff hsize⟩
  intro position
  refine ⟨offsetAt?_eq_none_iff source position, ?_⟩
  intro hline
  obtain ⟨front, back, rfl, hstops, hoffset⟩ := exists_stops hsize hline
  have hcut : (front ++ back).CutsOutsideTerminator front.byteSize :=
    ⟨front, back, rfl, rfl, hstops.unsplit⟩
  exact ⟨front.byteSize, hoffset, hcut, hcut.cutsAt.le_byteSize, hstops.isGreatest hsize⟩

/-- A column inside a surrogate pair, and a range that ends far past its line. -/
theorem offsetAt?_sampleLines :
    (ofText sampleLines).offsetAt? ⟨0, 2⟩ = some 2 ∧
      IsGreatest {column | column ≤ 2 ∧ ∃ place, sampleLines.CutsOutsideTerminator place ∧
        (ofText sampleLines).positionAt place = ⟨0, column⟩} 1 ∧
      ((ofText sampleLines).slice? ⟨⟨0, 2⟩, ⟨1, 70⟩⟩).isSome = true := by
  obtain ⟨hpositions, hranges⟩ := @offsetAt?_isGreatest sampleLines (by decide)
  obtain ⟨offset, hoffset, -, -, -, hgreatest⟩ := (hpositions ⟨0, 2⟩).2 (by decide)
  have hoffset' : (ofText sampleLines).offsetAt? ⟨0, 2⟩ = some 2 := by decide
  obtain rfl := Option.some.inj (hoffset'.symm.trans hoffset)
  have hcolumn : ((ofText sampleLines).positionAt 2).character = 1 := by decide
  rw [hcolumn] at hgreatest
  exact ⟨hoffset', hgreatest, (hranges _).mpr (by decide)⟩

end LineMap
end Lineage
