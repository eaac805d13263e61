import Lineage.Proofs.LineMap.Conversions

set_option autoImplicit false

/-! # Positions are ordered as offsets

Definitions are looked up by ranges of positions, while texts are cut at offsets. Both orders agree
(`positionAt_order`): the positions of two cuts are ordered as the cuts, a cut between a carriage return
and its line feed included, so a range holds just the places between its ends. The way back keeps the
order too, though not strictly, since a position may lead to a place in front of it. -/

namespace Lineage
namespace LineMap

variable {source : Text}

/-- A walk towards a later position goes no less far. -/
theorem Stops.place_le {position later : Position} {front back front' back' : Text}
    (h : Stops position front back) (h' : Stops later front' back')
    (heq : front ++ back = front' ++ back') (hle : position ≤ later) :
    ¬ Place.zero.after front' back' < Place.zero.after front back := by
  intro hlt
  simp only [Place.lt_iff, h.line, h'.line] at hlt
  simp only [Position.le_iff_not_lt, Position.lt_iff_toPlace, Place.lt_iff, Position.toPlace] at hle
  have hline : position.line.toNat = later.line.toNat := by omega
  -- on one line, the place of the first walk is one that the second could have gone on to
  have hcolumn := h'.column_le heq.symm h.unsplit (by rw [h.line, hline])
    (by have := h.column; omega)
  omega

theorem toPlace_positionAt_of_eq (hsize : source.byteSize < 4294967296) {front back : Text}
    (heq : source = front ++ back) :
    ((ofText source).positionAt front.byteSize).toPlace = Place.zero.after front back := by
  rw [heq] at hsize ⊢
  exact toPlace_positionAt hsize

/-- A later position has no smaller offset. -/
theorem offsetAt?_mono (hsize : source.byteSize < 4294967296) {position later : Position}
    (hle : position ≤ later) (hline : position.line.toNat < (ofText source).lineCount)
    (hline' : later.line.toNat < (ofText source).lineCount) :
    ∃ offset offset', (ofText source).offsetAt? position = some offset ∧
      (ofText source).offsetAt? later = some offset' ∧ offset ≤ offset' := by
  obtain ⟨front, back, heq, hstops, hoffset⟩ := exists_stops hsize hline
  obtain ⟨front', back', heq', hstops', hoffset'⟩ := exists_stops hsize hline'
  refine ⟨front.byteSize, front'.byteSize, hoffset, hoffset', Nat.le_of_not_lt fun hlt => ?_⟩
  have hpositions :=
    (positionAt_lt_iff hsize ⟨front', back', heq', rfl⟩ ⟨front, back, heq, rfl⟩).mpr hlt
  rw [Position.lt_iff_toPlace, toPlace_positionAt_of_eq hsize heq,
    toPlace_positionAt_of_eq hsize heq'] at hpositions
  exact hstops.place_le hstops' (heq.symm.trans heq') hle hpositions

/-- **Positions are ordered as offsets.** Of two places of a text the one with the smaller offset has the
    smaller position; so the range between two places contains a third exactly if that lies between
    them, the end excluded. Positions on existing lines lead to offsets in the same order. -/
theorem positionAt_order (hsize : source.byteSize < 4294967296) :
    (∀ a b, source.CutsAt a → source.CutsAt b →
      ((ofText source).positionAt a < (ofText source).positionAt b ↔ a < b)) ∧
    (∀ a b offset, source.CutsAt a → source.CutsAt b → source.CutsAt offset →
      (((ofText source).rangeBetween a b).contains ((ofText source).positionAt offset) = true ↔
        a ≤ offset ∧ offset < b)) ∧
    ∀ position later : Position, position ≤ later →
      position.line.toNat < (ofText source).lineCount →
      later.line.toNat < (ofText source).lineCount →
      ∃ offset offset', (ofText source).offsetAt? position = some offset ∧
        (ofText source).offsetAt? later = some offset' ∧ offset ≤ offset' := by
  refine ⟨?_, ?_, ?_⟩
  · intro a b ha hb
    exact positionAt_lt_iff hsize ha hb
  · intro a b offset ha hb hoffset
    exact contains_rangeBetween_iff hsize ha hb hoffset
  · intro position later hle hline hline'
    exact offsetAt?_mono hsize hle hline hline'

/-- The place inside a terminator comes behind the carriage return and before the next line, and a
    column past the end of the first line leads in front of both. -/
theorem positionAt_order_sampleLines :
    (ofText sampleLines).positionAt 7 < (ofText sampleLines).positionAt 8 ∧
      ((ofText sampleLines).rangeBetween 6 8).contains ((ofText sampleLines).positionAt 7) = true ∧
      ∃ offset offset', (ofText sampleLines).offsetAt? ⟨0, 70⟩ = some offset ∧
        (ofText sampleLines).offsetAt? ⟨1, 0⟩ = some offset' ∧ offset ≤ offset' := by
  obtain ⟨hpositions, hranges, hoffsets⟩ := @positionAt_order sampleLines (by decide)
  have hbefore : sampleLines.CutsAt 6 := ⟨"é😀".toList, "\r\nb\rc".toList, by decide, by decide⟩
  have hinside : sampleLines.CutsAt 7 := ⟨"é😀\r".toList, "\nb\rc".toList, by decide, by decide⟩
  have hbehind : sampleLines.CutsAt 8 := ⟨"é😀\r\n".toList, "b\rc".toList, by decide, by decide⟩
  refine ⟨?_, ?_, ?_⟩
  · exact (hpositions 7 8 hinside hbehind).mpr (by decide)
  · exact (hranges 6 8 7 hbefore hbehind hinside).mpr (by decide)
  · exact hoffsets ⟨0, 70⟩ ⟨1, 0⟩ (by decide) (by decide) (by decide)

end LineMap
end Lineage
