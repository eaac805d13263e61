import Lineage.Proofs.LineMap.Conversions

set_option autoImplicit false

/-! # Lines partition a text

A line map keeps the offsets at which lines start. They come in order, and the text can be cut there.
What it then falls into are its lines (`Partitions`), and the line of an offset is the last one that
starts at or before it (`ofText_partitions`). -/

namespace Lineage

/-! ## The starts of lines -/

/-- All lines but the last have characters. -/
theorem Line.byteSize_pos_of_cut {t : Text} {index : Nat} (h : index + 1 < (cut t).length) :
    0 < Text.byteSize (cut t)[index] := by
  have hended := List.isChain_iff_getElem.mp (lined_cut t).ended index h
  exact Nat.pos_of_ne_zero fun hzero => hended.ne_nil (Text.eq_nil_of_byteSize hzero)

namespace LineMap

variable {source : Text} {line next start later offset : Nat}

theorem lineCount_ofText (source : Text) : (ofText source).lineCount = (Line.cut source).length :=
  Line.length_place 0 _

theorem lineStart?_eq_getElem (h : line < (ofText source).lines.length) :
    (ofText source).lineStart? line = some (ofText source).lines[line].start := by
  rw [lineStart?, List.getElem?_eq_getElem h, Option.map_some]

/-- The text in front of a line is that of all lines before it. -/
theorem lineStart?_of_lt (h : line < (Line.cut source).length) :
    (ofText source).lineStart? line = some (Text.byteSize ((Line.cut source).take line).flatten) := by
  have hcut : Line.cut source =
      (Line.cut source).take line ++ (Line.cut source)[line] :: (Line.cut source).drop (line + 1) := by
    rw [List.getElem_cons_drop, List.take_append_drop]
  have hget := getElem?_lines_walked hcut
  rw [List.length_take_of_le (Nat.le_of_lt h)] at hget
  rw [lineStart?, hget]
  rfl

theorem lt_of_lineStart? (h : (ofText source).lineStart? line = some start) :
    line < (Line.cut source).length := by
  obtain ⟨found, hget, -⟩ := Option.map_eq_some_iff.mp h
  rw [← lineCount_ofText]
  exact (List.getElem?_eq_some_iff.mp hget).1

theorem eq_of_lineStart? (h : (ofText source).lineStart? line = some start) :
    start = Text.byteSize ((Line.cut source).take line).flatten :=
  Option.some.inj (h.symm.trans (lineStart?_of_lt (lt_of_lineStart? h)))

theorem byteSize_take_succ (h : line < (Line.cut source).length) :
    Text.byteSize ((Line.cut source).take (line + 1)).flatten =
      Text.byteSize ((Line.cut source).take line).flatten + Text.byteSize (Line.cut source)[line] := by
  rw [List.take_succ_eq_append_getElem h, List.flatten_append, List.flatten_singleton,
    Text.byteSize_append]

theorem lineStart?_zero (source : Text) : (ofText source).lineStart? 0 = some 0 :=
  lineStart?_of_lt (List.length_pos_iff.mpr (Line.cut_ne_nil source))

/-- Lines start in order, no two at the same offset. -/
theorem lineStart?_lt (hlt : line < next) (hline : (ofText source).lineStart? line = some start)
    (hnext : (ofText source).lineStart? next = some later) : start < later := by
  have hbound := lt_of_lineStart? hnext
  have hpos := Line.byteSize_pos_of_cut (Nat.lt_of_le_of_lt (Nat.succ_le_of_lt hlt) hbound)
  obtain ⟨more, hmore⟩ := List.take_prefix_take_left (l := Line.cut source) (Nat.succ_le_of_lt hlt)
  rw [eq_of_lineStart? hline, eq_of_lineStart? hnext, ← hmore, List.flatten_append,
    Text.byteSize_append, byteSize_take_succ (Nat.lt_trans hlt hbound)]
  omega

theorem flatten_take_append_flatten_drop (source : Text) (line : Nat) :
    ((Line.cut source).take line).flatten ++ ((Line.cut source).drop line).flatten = source := by
  rw [← List.flatten_append, List.take_append_drop, Line.flatten_cut]

/-- A line starts where the text can be cut. -/
theorem cutsAt_of_lineStart? (h : (ofText source).lineStart? line = some start) :
    source.CutsAt start :=
  ⟨_, _, (flatten_take_append_flatten_drop source line).symm, (eq_of_lineStart? h).symm⟩

/-- A line goes up to the start of the next one, and the last line to the end of the text. -/
theorem lineStart?_succ (source : Text) (line : Nat) :
    ((ofText source).lineStart? (line + 1)).getD source.byteSize =
      Text.byteSize ((Line.cut source).take (line + 1)).flatten := by
  by_cases hnext : line + 1 < (Line.cut source).length
  · rw [lineStart?_of_lt hnext, Option.getD_some]
  · have hnone : (ofText source).lineStart? (line + 1) = none := by
      rw [Option.eq_none_iff_forall_not_mem]
      intro start hstart
      exact hnext (lt_of_lineStart? hstart)
    rw [hnone, Option.getD_none, List.take_of_length_le (Nat.le_of_not_lt hnext), Line.flatten_cut]

/-- Between the start of a line and that of the next one stands the line. -/
theorem between?_lineStart? (h : line < (Line.cut source).length) :
    source.between? (Text.byteSize ((Line.cut source).take line).flatten)
      (((ofText source).lineStart? (line + 1)).getD source.byteSize) = some (Line.cut source)[line] := by
  have hsource : source = ((Line.cut source).take line).flatten ++
      ((Line.cut source)[line] ++ ((Line.cut source).drop (line + 1)).flatten) := by
    rw [← List.flatten_cons, List.getElem_cons_drop, flatten_take_append_flatten_drop]
  have hpart := Text.between?_append ((Line.cut source).take line).flatten (Line.cut source)[line]
    ((Line.cut source).drop (line + 1)).flatten
  rw [← hsource, Text.byteSize_append] at hpart
  rw [lineStart?_succ, byteSize_take_succ h]
  exact hpart

/-! ## The line of an offset -/

/-- The lines in front of the first one that starts behind an offset are those that start at or before
    it. -/
theorem lt_findIdx_iff (source : Text) (line offset : Nat) :
    line < (ofText source).lines.findIdx (fun found => offset < found.start) ↔
      ∃ start, (ofText source).lineStart? line = some start ∧ start ≤ offset := by
  constructor
  · intro hlt
    have hline : line < (ofText source).lines.length :=
      Nat.lt_of_lt_of_le hlt List.findIdx_le_length
    have hnot := List.not_of_lt_findIdx hlt
    exact ⟨_, lineStart?_eq_getElem hline, by simpa using hnot⟩
  · rintro ⟨start, hstart, hle⟩
    refine Nat.lt_of_not_le fun hge => ?_
    have hline := lt_of_lineStart? hstart
    rw [← lineCount_ofText, lineCount] at hline
    have hbehind := Nat.lt_of_le_of_lt hge hline
    have hfound := of_decide_eq_true (List.findIdx_getElem (w := hbehind))
    have hget := lineStart?_eq_getElem hbehind
    rcases Nat.lt_or_eq_of_le hge with hlt | rfl
    · have := lineStart?_lt hlt hget hstart
      omega
    · have := Option.some.inj (hget.symm.trans hstart)
      omega

/-- The line of an offset is the last one that starts at or before it. -/
theorem isGreatest_lineAt (source : Text) (offset : Nat) :
    IsGreatest {line | ∃ start, (ofText source).lineStart? line = some start ∧ start ≤ offset}
      ((ofText source).lineAt offset) := by
  have hfirst := (lt_findIdx_iff source 0 offset).mpr ⟨0, lineStart?_zero source, Nat.zero_le _⟩
  rw [lineAt]
  refine ⟨(lt_findIdx_iff source _ offset).mp (Nat.sub_one_lt_of_lt hfirst), ?_⟩
  intro line hline
  exact Nat.le_sub_one_of_lt ((lt_findIdx_iff source line offset).mpr hline)

/-! ## The partition -/

/-- The parts into which the starts of the lines cut a text are its lines. -/
structure Partitions (map : LineMap) (pieces : List Text) : Prop where
  length_eq : pieces.length = map.lineCount
  piece_eq : ∀ line piece, pieces[line]? = some piece → ∃ start, map.lineStart? line = some start ∧
    map.source.between? start ((map.lineStart? (line + 1)).getD map.source.byteSize) = some piece
  flatten_eq : pieces.flatten = map.source
  lined : Line.Lined pieces

theorem partitions_cut (source : Text) : (ofText source).Partitions (Line.cut source) := by
  refine ⟨(lineCount_ofText source).symm, ?_, Line.flatten_cut source, Line.lined_cut source⟩
  intro line piece hpiece
  obtain ⟨hline, rfl⟩ := List.getElem?_eq_some_iff.mp hpiece
  exact ⟨_, lineStart?_of_lt hline, between?_lineStart? hline⟩

/-- **Lines partition a text.** They start at offset zero, in order and where the text can be cut; the
    parts between their starts are the lines, one more than there are terminators; and the line in the
    position of an offset, be it past the text, is the last one that starts at or before it. -/
theorem ofText_partitions (hsize : source.byteSize < 4294967296) :
    (ofText source).lineStart? 0 = some 0 ∧
    (∀ line next start later, line < next → (ofText source).lineStart? line = some start →
      (ofText source).lineStart? next = some later → start < later) ∧
    (∀ line start, (ofText source).lineStart? line = some start →
      source.CutsAt start ∧ start ≤ source.byteSize) ∧
    (∃ pieces, (ofText source).Partitions pieces) ∧
    (ofText source).lineCount = source.terminatorCount + 1 ∧
    ∀ offset, IsGreatest
      {line | ∃ start, (ofText source).lineStart? line = some start ∧ start ≤ offset}
      ((ofText source).positionAt offset).line.toNat := by
  refine ⟨lineStart?_zero source, ?_, ?_, ⟨_, partitions_cut source⟩, ?_, ?_⟩
  · intro line next start later hlt hline hnext
    exact lineStart?_lt hlt hline hnext
  · intro line start hstart
    have hcut := cutsAt_of_lineStart? hstart
    exact ⟨hcut, hcut.le_byteSize⟩
  · rw [lineCount_ofText, Line.length_cut]
  · intro offset
    rw [(toNat_positionAt hsize offset).1]
    exact isGreatest_lineAt source offset

/-- Terminators of all three kinds behind one another, the last at the end of the text. -/
def sampleTerminators : Text := "é\r\r\n\n\r".toList

/-- Five lines, and the offset between a carriage return and its line feed is on the second. -/
theorem ofText_sampleTerminators_partitions :
    (ofText sampleTerminators).lineCount = 5 ∧
      (∃ pieces, (ofText sampleTerminators).Partitions pieces) ∧
      IsGreatest {line | ∃ start, (ofText sampleTerminators).lineStart? line = some start ∧ start ≤ 4}
        1 := by
  obtain ⟨-, -, -, hpieces, hcount, hlines⟩ := @ofText_partitions sampleTerminators (by decide)
  have hterminators : sampleTerminators.terminatorCount = 4 := by decide
  have hline : ((ofText sampleTerminators).positionAt 4).line.toNat = 1 := by decide
  exact ⟨by rw [hcount, hterminators], hpieces, hline ▸ hlines 4⟩

end LineMap
end Lineage
