import Lineage.Outline.Sources
import Lineage.Proofs.LineMap.Places
import Lineage.Proofs.Outline.Spans

set_option autoImplicit false

/-! # The words in the head of a type

The words of a type's head are read off the whole document, the references off the text of the type
alone. Both agree on where a reference stands: over the place of a reference in front of the first
brace there is a word of the head exactly if a name starts there, and it is that name
(`TypeSpan.filter_headWords`). The one word that a head leaves out is the name of the type itself,
and that is no reference, as no clause opens before it. -/

namespace Lineage

open SupertypeClauses

namespace TypeSpan

variable {source : Text} (span : TypeSpan source)

/-- A reference between `front` and `back`, with no brace before it. -/
structure RefersBetween (front back : Text) : Prop where
  text_eq : span.text = front ++ back
  mem_offsets : front.byteSize ∈ (scan span.text).offsets
  no_word : Text.NoWordAtEnd front
  no_brace : '{' ∉ front

/-! ## The text of a type -/

theorem cutsAt_start : source.CutsAt span.start :=
  ⟨span.before, span.text ++ span.after, span.source_eq, rfl⟩

theorem cutsAt_stop : source.CutsAt span.stop :=
  ⟨span.before ++ span.text, span.after, span.source_eq.trans (List.append_assoc _ _ _).symm, rfl⟩

theorem source_eq_append {front back : Text} (h : span.text = front ++ back) :
    source = (span.before ++ front) ++ (back ++ span.after) :=
  span.source_eq.trans (by rw [h]; simp)

/-- A cut of the text is a cut of the source. -/
theorem cutsAt_add {front back : Text} (h : span.text = front ++ back) :
    source.CutsAt (span.start + front.byteSize) :=
  ⟨span.before ++ front, back ++ span.after, span.source_eq_append h, Text.byteSize_append _ _⟩

theorem stop_eq : span.stop = span.start + span.text.byteSize :=
  Text.byteSize_append span.before span.text

theorem start_lt_stop : span.start < span.stop := by
  have hpos : 0 < span.text.byteSize := by
    refine Nat.pos_of_ne_zero fun hzero => ?_
    have hopens := span.opens
    rw [Text.eq_nil_of_byteSize hzero] at hopens
    cases hopens
  have := span.stop_eq
  omega

/-- A reference stands in the type: the brace is behind it. -/
theorem RefersBetween.lt_stop {span : TypeSpan source} {front back : Text}
    (h : span.RefersBetween front back) : span.start + front.byteSize < span.stop := by
  have hback : 0 < Text.byteSize back := by
    refine Nat.pos_of_ne_zero fun hzero => h.no_brace ?_
    have hopens := span.opens
    rwa [h.text_eq, Text.eq_nil_of_byteSize hzero, List.append_nil] at hopens
  rw [span.stop_eq, h.text_eq, Text.byteSize_append]
  omega

/-- The text of a type: an announcement and the name. -/
theorem exists_announcement : span.head.kind.isType = true ∧
    ∃ announcement rest : Text, span.text = announcement ++ rest ∧ Announcement announcement ∧
      span.head.offset = span.start + announcement.byteSize ∧
      Text.word (span.text ++ span.after) ≠ [] ∧ Text.word (rest ++ span.after) ≠ [] := by
  obtain ⟨line, ⟨more, hmore⟩, hhead⟩ := span.announced
  obtain ⟨hline, htype, announcement, rest, rfl, hannouncement, hoffset, -, hname⟩ :=
    Head.exists_of_declaration? hhead
  have hextend : ∀ t : Text, t.word ≠ [] → Text.word (t ++ more) ≠ [] := by
    intro t ht
    cases t with
    | nil => exact absurd rfl ht
    | cons c t =>
      by_cases hc : Text.isIdentifierPart c = true
      · rw [List.cons_append, Text.word, List.takeWhile_cons_of_pos hc]
        exact List.cons_ne_nil _ _
      · exact absurd (List.takeWhile_cons_of_neg hc) ht
  have hline' := hextend _ hline
  rw [hmore] at hline'
  rw [List.append_assoc] at hmore
  rcases List.append_eq_append_iff.mp hmore with ⟨rest', htext, hrest'⟩ | ⟨rest', hannounced, -⟩
  · refine ⟨htype, announcement, rest', htext, hannouncement, hoffset, hline', ?_⟩
    rw [← hrest']
    exact hextend rest hname
  · -- the brace that closes the type is in no announcement
    have hclose : '}' ∈ span.text := List.mem_of_getLast? span.closes
    have hmem : '}' ∈ announcement := by
      rw [hannounced]
      exact List.mem_append_left _ hclose
    exact absurd hmem (hannouncement.not_mem (by decide) (by decide))

theorem not_splitsTerminator_start : ¬ Text.SplitsTerminator span.before (span.text ++ span.after) := by
  obtain ⟨-, announcement, rest, -, -, -, hword, -⟩ := span.exists_announcement
  exact Text.not_splitsTerminator span.before hword

theorem not_splitsTerminator_stop : ¬ Text.SplitsTerminator (span.before ++ span.text) span.after := by
  rintro ⟨hreturn, -⟩
  have hlast := span.closes
  rw [List.getLast?_append, hlast] at hreturn
  cases hreturn

variable (hsize : source.byteSize < 4294967296)

include hsize

/-- The text of a type is what its range covers. -/
theorem slice?_range : (LineMap.ofText source).slice? span.symbol.range = some span.text := by
  have hsource := span.source_eq
  have hslice := LineMap.slice?_rangeBetween (hsource ▸ hsize) span.not_splitsTerminator_start
    span.not_splitsTerminator_stop
  rwa [← hsource] at hslice

theorem offsetAt?_start :
    (LineMap.ofText source).offsetAt? span.symbol.range.start = some span.start := by
  have hsource := span.source_eq
  have hoffset := LineMap.offsetAt?_positionAt (hsource ▸ hsize) span.not_splitsTerminator_start
  rwa [← hsource] at hoffset

theorem offsetAt?_selection :
    (LineMap.ofText source).offsetAt? span.symbol.selection.start = some span.head.offset := by
  obtain ⟨-, announcement, rest, htext, -, hoffset, -, hword⟩ := span.exists_announcement
  have hsource := span.source_eq_append htext
  have hposition := LineMap.offsetAt?_positionAt (hsource ▸ hsize)
    (Text.not_splitsTerminator (span.before ++ announcement) hword)
  rw [← hsource, Text.byteSize_append] at hposition
  show (LineMap.ofText source).offsetAt? ((LineMap.ofText source).positionAt span.head.offset) = _
  rw [hoffset]
  exact hposition

/-- The position of a cut of the text, seen from where the type starts. -/
theorem positionOf_eq {front back : Text} (h : span.text = front ++ back) :
    positionOf (LineMap.ofText span.text) span.symbol.range.start front.byteSize =
      some ((LineMap.ofText source).positionAt (span.start + front.byteSize)) := by
  have hsource := span.source_eq
  have hwithin := @LineMap.within_positionAt span.before front back span.after
  rw [← h, ← hsource] at hwithin
  refine hwithin hsize ?_
  rintro rfl ⟨hreturn, -⟩
  rw [List.append_nil] at h
  rw [← h, span.closes] at hreturn
  cases hreturn

/-! ## Words -/

/-- The words of the head are those of the text up to its first brace. -/
theorem headWords_eq : headWords (LineMap.ofText source) span.symbol =
    (Text.wordsFrom span.start 0 (span.text.takeWhile (· != '{'))).filter
      fun word => some word.1 ≠ some span.head.offset := by
  have hrest : (LineMap.ofText source).source.drop? span.start = some (span.text ++ span.after) := by
    have hsplit := Text.splitAt?_append span.before (span.text ++ span.after)
    rw [← span.source_eq] at hsplit
    show source.drop? span.before.byteSize = _
    rw [Text.drop?_eq, hsplit]
    rfl
  rw [headWords, span.offsetAt?_start hsize, span.offsetAt?_selection hsize]
  dsimp only
  rw [hrest, Option.getD_some, Text.takeWhile_append_of_exists _ ⟨'{', span.opens, by decide⟩]

/-- The words of the head stand in the type. -/
theorem exists_of_mem_headWords {found : Nat × Text}
    (h : found ∈ headWords (LineMap.ofText source) span.symbol) :
    source.CutsAt found.1 ∧ source.CutsAt (found.1 + found.2.byteSize) ∧ span.start ≤ found.1 ∧
      found.1 + found.2.byteSize ≤ span.stop := by
  rw [span.headWords_eq hsize] at h
  obtain ⟨front, back, hhead, hoffset⟩ := Text.exists_of_mem_wordsFrom (List.mem_filter.mp h).1
  obtain ⟨rest, htext⟩ := List.takeWhile_prefix (l := span.text) (· != '{')
  rw [hhead, List.append_assoc, List.append_assoc] at htext
  have hstart := span.cutsAt_add htext.symm
  have hstop := span.cutsAt_add (htext.symm.trans (List.append_assoc front found.2 _).symm)
  have hwithin := span.stop_eq
  rw [← htext] at hwithin
  simp only [Text.byteSize_append] at hstop hwithin
  rw [hoffset]
  refine ⟨hstart, by rwa [Nat.add_assoc], ?_, ?_⟩ <;> omega

/-- The words of the head over the place of a reference. -/
theorem filter_headWords {front back : Text} (h : span.RefersBetween front back) :
    (headWords (LineMap.ofText source) span.symbol).filter
        (Text.covers (span.start + front.byteSize)) =
      if back.head?.any Text.isIdentifierStart then [(span.start + front.byteSize, back.word)]
      else [] := by
  obtain ⟨-, announcement, rest, htext, hannouncement, hname, -, -⟩ := span.exists_announcement
  have hown : span.start + front.byteSize ≠ span.head.offset := by
    have hreference := h.mem_offsets
    rw [htext] at hreference
    have := scan_announcement_ge hannouncement rest _ hreference
    omega
  have hhead : span.text.takeWhile (· != '{') = front ++ back.takeWhile (· != '{') := by
    rw [h.text_eq, List.takeWhile_append_of_pos]
    intro c hc
    exact bne_iff_ne.mpr fun heq => h.no_brace (heq ▸ hc)
  obtain ⟨hback, hstart⟩ := Text.word_takeWhile (p := (· != '{'))
    (fun c hc => bne_iff_ne.mpr (ne_of_isIdentifierPart hc).2.2.1) back
  have hwords := Text.filter_wordsFrom h.no_word span.start (back.takeWhile (· != '{'))
  rw [hback, hstart] at hwords
  rw [span.headWords_eq hsize, hhead, List.filter_filter]
  simp only [Bool.and_comm]
  rw [← List.filter_filter, hwords]
  by_cases hname : back.head?.any Text.isIdentifierStart = true
  · rw [if_pos hname, List.filter_cons_of_pos (by simpa using hown), List.filter_nil]
  · rw [if_neg hname, List.filter_nil]

end TypeSpan
end Lineage
