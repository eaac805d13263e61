import Lineage.Proofs.Outline.Names

set_option autoImplicit false

/-! # Outlines are well formed

The members of an outlined type stand inside of it, in source order and apart from each other, and
every symbol names itself (`outline_wellFormed`), whatever the source is.

While the outliner reads, an open member is the last thing that was opened, and everything found
before ends in front of it (`Outliner.Places`). A member can end in four ways. With a brace or a
semicolon it ends behind a character that is in no head, so its name has been passed. With its line it
ends at the last character of the line that is no blank; then its name is in that line, as a member
that comes from an earlier line has a body: a member without one is open only at depth 1
(`Outliner.Balanced`), and there every line ends it. -/

namespace Lineage

namespace Text

theorem trimEnd_prefix (t : Text) : trimEnd t <+: t := by
  have hsuffix := List.dropWhile_suffix (l := t.reverse) isBlank
  rwa [← List.reverse_prefix, List.reverse_reverse] at hsuffix

/-- What ends with a character that is no blank is not trimmed. -/
theorem prefix_trimEnd {front t : Text} (h : front <+: t) {c : Char}
    (hlast : front.getLast? = some c) (hc : isBlank c = false) : front <+: trimEnd t := by
  obtain ⟨back, rfl⟩ := h
  rw [trimEnd, List.reverse_append, List.dropWhile_append]
  split
  · obtain ⟨init, rfl⟩ := List.getLast?_eq_some_iff.mp hlast
    exact ⟨[], by simp [hc]⟩
  · rw [List.reverse_append, List.reverse_reverse]
    exact List.prefix_append _ _

end Text

/-! ## Members in order -/

/-- Members that stand in a source one after the other, behind `start` and up to `stop`. -/
def MembersBetween (source : Text) (start stop : Nat) (members : List DocumentSymbol) : Prop :=
  ∃ spans : List (NamedSpan source), members = spans.map (NamedSpan.symbol · []) ∧
    spans.Pairwise (fun a b => a.stop ≤ b.start) ∧
    ∀ span ∈ spans, start < span.start ∧ span.stop ≤ stop

namespace MembersBetween

variable {source : Text} {start stop : Nat} {members : List DocumentSymbol}

theorem nil (source : Text) (start stop : Nat) : MembersBetween source start stop [] :=
  ⟨[], rfl, .nil, by simp⟩

theorem mono (h : MembersBetween source start stop members) {later : Nat} (hle : stop ≤ later) :
    MembersBetween source start later members := by
  obtain ⟨spans, hmembers, hordered, hbetween⟩ := h
  refine ⟨spans, hmembers, hordered, fun span hspan => ?_⟩
  exact ⟨(hbetween span hspan).1, Nat.le_trans (hbetween span hspan).2 hle⟩

theorem concat (h : MembersBetween source start stop members) (span : NamedSpan source)
    (hstart : start < span.start) (hstop : stop ≤ span.start) :
    MembersBetween source start span.stop (members ++ [span.symbol []]) := by
  obtain ⟨spans, rfl, hordered, hbetween⟩ := h
  have hspan := span.start_lt_stop
  refine ⟨spans ++ [span], by simp, ?_, ?_⟩
  · refine List.pairwise_append.mpr ⟨hordered, List.pairwise_singleton _ _, ?_⟩
    intro other hother last hlast
    rw [List.mem_singleton.mp hlast]
    exact Nat.le_trans (hbetween other hother).2 hstop
  · intro other hother
    rcases List.mem_append.mp hother with hother | hother
    · have := hbetween other hother
      omega
    · rw [List.mem_singleton.mp hother]
      exact ⟨hstart, Nat.le_refl _⟩

end MembersBetween

/-- The children of a symbol are members that stand between its ends, and no further than to a place
    before its end. -/
def HoldsMembers (source : Text) (symbol : DocumentSymbol) : Prop :=
  ∃ start stop last, source.CutsAt start ∧ source.CutsAt stop ∧ last < stop ∧
    symbol.range = (LineMap.ofText source).rangeBetween start stop ∧
    MembersBetween source start last symbol.children

/-! ## Open members -/

/-- An open member starts in `front` with a head that its line announces. -/
def OpenMember.Stands (front rest : Text) (member : OpenMember) : Prop :=
  ∃ before part line, front = before ++ part ∧ member.start = before.byteSize ∧
    line <+: part ++ rest ∧ Head.member? member.start line = some member.head

namespace OpenMember.Stands

variable {source front rest : Text} {member : OpenMember} {c : Char}

theorem advance (h : member.Stands front (c :: rest)) : member.Stands (front ++ [c]) rest := by
  obtain ⟨before, part, line, rfl, hstart, hline, hhead⟩ := h
  refine ⟨before, part ++ [c], line, List.append_assoc _ _ _, hstart, ?_, hhead⟩
  rwa [← List.append_cons]

/-- A member that ends with a character foreign to heads. -/
theorem exists_span (h : member.Stands front (c :: rest)) (hsource : source = front ++ c :: rest)
    (hc : Text.isHeadChar c = false) :
    ∃ span : NamedSpan source, span.head = member.head ∧ span.start = member.start ∧
      span.stop = (front ++ [c]).byteSize := by
  obtain ⟨before, part, line, rfl, hstart, hline, hhead⟩ := h
  obtain ⟨lead, more, heq, hleads⟩ := Head.exists_leads_of_member? hhead
  rw [List.append_cons] at hline
  have hmem : c ∈ part ++ [c] := List.mem_append_right part (List.mem_singleton_self c)
  have hwhole := hleads.prefix_of_mem heq hline hmem hc
  have hsource' : source = before ++ ((part ++ [c]) ++ rest) := by
    rw [hsource]
    simp
  rw [hstart] at hleads ⊢
  rw [List.append_assoc before part]
  exact NamedSpan.exists_of_prefix hsource' hleads hwhole

end OpenMember.Stands

/-- A member that is announced by the content of a line and ends with it. -/
theorem exists_span_of_line {source front blanks content line rest : Text} {head : Head}
    (hsource : source = front ++ (line ++ rest)) (hline : line = blanks ++ content)
    (hhead : Head.member? (front ++ blanks).byteSize content = some head) :
    ∃ span : NamedSpan source, span.head = head ∧ span.start = (front ++ blanks).byteSize ∧
      span.stop = front.byteSize + line.trimEnd.byteSize := by
  obtain ⟨lead, more, hcontent, hleads⟩ := Head.exists_leads_of_member? hhead
  have hlast := hleads.name_part _ (List.getLast_mem hleads.name_ne)
  have hwhole : blanks ++ (lead ++ head.name) <+: line.trimEnd := by
    refine Text.prefix_trimEnd ⟨more, by rw [hline, hcontent]; simp⟩ ?_
      (Bool.eq_false_iff.mpr fun hblank => Text.not_isIdentifierPart_of_isBlank hblank hlast)
    rw [List.getLast?_append, List.getLast?_append, List.getLast?_eq_some_getLast hleads.name_ne]
    rfl
  obtain ⟨trail, htrail⟩ := hwhole
  obtain ⟨tail, htail⟩ := Text.trimEnd_prefix line
  have hsource' : source = (front ++ blanks) ++ ((lead ++ head.name ++ trail) ++ (tail ++ rest)) := by
    rw [hsource, ← htail, ← htrail]
    simp
  obtain ⟨span, hspan, hstart, hstop⟩ :=
    NamedSpan.exists_of_prefix hsource' hleads (List.prefix_append _ _)
  refine ⟨span, hspan, hstart, ?_⟩
  rw [hstop, ← htrail]
  simp only [Text.byteSize_append]
  omega

/-! ## Depth and open members -/

namespace Outliner

variable {source front rest : Text} {state : Outliner} {map : LineMap} {c : Char}

/-- A member is open only inside the braces of its type, and it has a body exactly inside braces of its
    own. -/
def Balanced (state : Outliner) : Prop :=
  ∀ member ∈ state.member, 1 ≤ state.depth ∧ (member.hasBody = true ↔ 2 ≤ state.depth)

theorem balanced_of_member_eq_none (h : state.member = none) : state.Balanced := by
  intro member hmember
  rw [h] at hmember
  cases hmember

theorem member_finishMember (map : LineMap) (state : Outliner) (stop : Nat) :
    (state.finishMember map stop).member = none := by
  rw [finishMember]
  cases h : state.member with
  | none => exact h
  | some member => rfl

theorem member_finishDeclaration (map : LineMap) (state : Outliner) (stop : Nat) :
    (state.finishDeclaration map stop).member = none := by
  rw [finishDeclaration]
  cases state.declaration with
  | none => rfl
  | some declaration => rfl

theorem Balanced.finishBodiless (h : state.Balanced) (stop : Nat) :
    (state.finishBodiless map stop).Balanced := by
  rw [Outliner.finishBodiless]
  split
  · exact balanced_of_member_eq_none (member_finishMember map state stop)
  · exact h

/-- Where a member without a body may end, none is left. -/
theorem Balanced.hasBody_of_finishBodiless (h : state.Balanced) {stop : Nat} {member : OpenMember}
    (hmember : (state.finishBodiless map stop).member = some member) : member.hasBody = true := by
  rw [Outliner.finishBodiless] at hmember
  split at hmember
  · rw [member_finishMember] at hmember
    cases hmember
  · next hends =>
    obtain ⟨hpositive, hiff⟩ := h member hmember
    refine hiff.mpr (Int.not_lt.mp fun hlt => hends ?_)
    have hnone : member.hasBody = false := Bool.eq_false_iff.mpr fun hhas => by
      have := hiff.mp hhas
      omega
    have hone : state.depth = 1 := by omega
    simp [hone, hmember, hnone]

theorem Balanced.openBrace (h : state.Balanced) : state.openBrace.Balanced := by
  intro member hmember
  rw [Outliner.openBrace] at hmember ⊢
  dsimp only at hmember ⊢
  split at hmember
  · next hdepth =>
    obtain ⟨old, -, rfl⟩ := Option.map_eq_some_iff.mp hmember
    refine ⟨by omega, iff_of_true rfl (by omega)⟩
  · next hdepth =>
    obtain ⟨hpositive, hbody⟩ := h member hmember
    refine ⟨by omega, ?_⟩
    rw [hbody]
    omega

theorem Balanced.closeBrace (h : state.Balanced) (stop : Nat) :
    (state.closeBrace map stop).Balanced := by
  rw [Outliner.closeBrace]
  dsimp only
  split
  · exact balanced_of_member_eq_none (member_finishMember _ _ _)
  · next hbody =>
    split
    · exact balanced_of_member_eq_none (member_finishDeclaration _ _ _)
    · next hdepth =>
      intro member hmember
      have hmember' : state.member = some member := hmember
      obtain ⟨hpositive, hiff⟩ := h member hmember'
      have hhas : member.hasBody = true := hiff.mpr (by omega)
      -- a member with a body is closed at depth 1
      have hne : state.depth - 1 ≠ 1 := by
        intro heq
        simp [heq, hmember', hhas] at hbody
      exact ⟨by dsimp only; omega, iff_of_true hhas (by dsimp only; omega)⟩

theorem Balanced.step (h : state.Balanced) (offset : Nat) (c : Char) :
    (state.step map offset c).Balanced := by
  rw [Outliner.step]
  split
  · exact h.openBrace
  · split
    · exact h.closeBrace _
    · split
      · exact h.finishBodiless _
      · exact h

theorem Balanced.steps (h : state.Balanced) (offset : Nat) (line : Text) :
    (state.steps map offset line).Balanced := by
  induction line generalizing state offset with
  | nil => exact h
  | cons c line ih => exact ih (h.step offset c) _

/-- What a line opens: nothing, a type, or a member of the open type. -/
theorem beginLine_cases (state : Outliner) (offset : Nat) (line : Text) :
    state.beginLine offset line = state ∨
      (∃ head, state.depth = 0 ∧ state.declaration = none ∧
        state.beginLine offset line = { state with declaration := some ⟨head, offset, []⟩ }) ∨
      ∃ head, state.depth = 1 ∧ state.member = none ∧ Head.member? offset line = some head ∧
        state.beginLine offset line = { state with member := some ⟨head, offset, false⟩ } := by
  rw [beginLine]
  split
  · next hfree =>
    rw [Bool.and_eq_true, decide_eq_true_iff, Option.isNone_iff_eq_none] at hfree
    split
    · next head hhead => exact .inr (.inl ⟨head, hfree.1, hfree.2, rfl⟩)
    · exact .inl rfl
  · split
    · next hinside =>
      simp only [Bool.and_eq_true, decide_eq_true_iff, Option.isNone_iff_eq_none] at hinside
      split
      · next head hhead => exact .inr (.inr ⟨head, hinside.1.1, hinside.2, hhead, rfl⟩)
      · exact .inl rfl
    · exact .inl rfl

theorem Balanced.beginLine (h : state.Balanced) (offset : Nat) (line : Text) :
    (state.beginLine offset line).Balanced := by
  rcases state.beginLine_cases offset line with heq | ⟨head, -, -, heq⟩ | ⟨head, hdepth, -, -, heq⟩ <;>
    rw [heq]
  · exact h
  · exact h
  · rintro member ⟨⟩
    dsimp only
    rw [hdepth]
    decide

theorem member_of_beginLine {offset : Nat} {line : Text} {member : OpenMember}
    (h : (state.beginLine offset line).member = some member) :
    state.member = some member ∨
      (member.start = offset ∧ Head.member? offset line = some member.head) := by
  rcases state.beginLine_cases offset line with heq | ⟨head, -, -, heq⟩ | ⟨head, -, -, hhead, heq⟩ <;>
    rw [heq] at h
  · exact .inl h
  · exact .inl h
  · cases h
    exact .inr ⟨rfl, hhead⟩

/-- No character opens a member, and none takes its body away. -/
theorem exists_member_of_step {offset : Nat} {member : OpenMember}
    (h : (state.step map offset c).member = some member) :
    ∃ old, state.member = some old ∧ member.start = old.start ∧ member.head = old.head ∧
      (old.hasBody = true → member.hasBody = true) := by
  have hsame : state.member = some member →
      ∃ old, state.member = some old ∧ member.start = old.start ∧ member.head = old.head ∧
        (old.hasBody = true → member.hasBody = true) := fun heq => ⟨member, heq, rfl, rfl, id⟩
  rw [step] at h
  split at h
  · rw [openBrace] at h
    dsimp only at h
    split at h
    · obtain ⟨old, hold, rfl⟩ := Option.map_eq_some_iff.mp h
      exact ⟨old, hold, rfl, rfl, fun _ => rfl⟩
    · exact hsame h
  · split at h
    · rw [closeBrace] at h
      dsimp only at h
      split at h
      · rw [member_finishMember] at h
        cases h
      · split at h
        · rw [member_finishDeclaration] at h
          cases h
        · exact hsame h
    · split at h
      · rw [finishBodiless] at h
        split at h
        · rw [member_finishMember] at h
          cases h
        · exact hsame h
      · exact hsame h

theorem exists_member_of_steps {offset : Nat} {line : Text} {member : OpenMember}
    (h : (state.steps map offset line).member = some member) :
    ∃ old, state.member = some old ∧ member.start = old.start ∧ member.head = old.head ∧
      (old.hasBody = true → member.hasBody = true) := by
  induction line generalizing state offset with
  | nil => exact ⟨member, h, rfl, rfl, id⟩
  | cons c line ih =>
    obtain ⟨middle, hmiddle, hstart, hhead, hbody⟩ := ih h
    obtain ⟨old, hold, hstart', hhead', hbody'⟩ := exists_member_of_step hmiddle
    exact ⟨old, hold, hstart.trans hstart', hhead.trans hhead', fun hhas => hbody (hbody' hhas)⟩

/-! ## Places -/

/-- What is known between `front` and `rest` of the places that the outliner keeps. The members of an
    open type stand behind its start, and an open member stands behind all of them. -/
structure Places (source front rest : Text) (state : Outliner) : Prop where
  source_eq : source = front ++ rest
  symbols : ∀ symbol ∈ state.symbols, HoldsMembers source symbol
  declaration : ∀ declaration ∈ state.declaration, source.CutsAt declaration.start ∧
    declaration.start ≤ front.byteSize ∧ (state.depth ≠ 0 → declaration.start < front.byteSize) ∧
    MembersBetween source declaration.start front.byteSize declaration.members
  member : ∀ member ∈ state.member, member.Stands front rest
  inside : ∀ member ∈ state.member, ∀ declaration ∈ state.declaration,
    declaration.start < member.start ∧
      MembersBetween source declaration.start member.start declaration.members

theorem places_initial (source : Text) : initial.Places source [] source := by
  refine ⟨rfl, ?_, ?_, ?_, ?_⟩ <;> simp [initial]

/-- Past a character that ends nothing. -/
theorem Places.advance (h : state.Places source front (c :: rest)) (depth : Int) :
    { state with depth := depth }.Places source (front ++ [c]) rest := by
  have hsize : front.byteSize < (front ++ [c]).byteSize := by
    have := c.utf8Size_pos
    rw [Text.byteSize_append, Text.byteSize_cons]
    omega
  refine ⟨by rw [h.source_eq, List.append_cons], h.symbols, ?_, ?_, h.inside⟩
  · intro declaration hdeclaration
    obtain ⟨hcuts, hle, -, hmembers⟩ := h.declaration declaration hdeclaration
    exact ⟨hcuts, by omega, fun _ => by omega, hmembers.mono (Nat.le_of_lt hsize)⟩
  · intro member hmember
    exact (h.member member hmember).advance

theorem Places.advance_append {blanks : Text} (h : state.Places source front (blanks ++ rest)) :
    state.Places source (front ++ blanks) rest := by
  induction blanks generalizing front with
  | nil =>
    rw [List.append_nil]
    exact h
  | cons c blanks ih =>
    rw [List.append_cons]
    exact ih (h.advance state.depth)

/-- An opening brace leaves all places as they are. -/
theorem Places.openBrace (h : state.Places source front ('{' :: rest)) :
    state.openBrace.Places source (front ++ ['{']) rest := by
  have hadvanced := h.advance (state.depth + 1)
  have hmember : ∀ member ∈ state.openBrace.member, ∃ old ∈ state.member,
      member.start = old.start ∧ member.head = old.head := by
    intro member hmember
    rw [Outliner.openBrace] at hmember
    dsimp only at hmember
    split at hmember
    · obtain ⟨old, hold, rfl⟩ := Option.map_eq_some_iff.mp hmember
      exact ⟨old, hold, rfl, rfl⟩
    · exact ⟨member, hmember, rfl, rfl⟩
  refine ⟨hadvanced.source_eq, hadvanced.symbols, hadvanced.declaration, ?_, ?_⟩
  · intro member hopen
    obtain ⟨old, hold, hstart, hhead⟩ := hmember member hopen
    obtain ⟨before, part, line, hfront, hbefore, hline, hold'⟩ := hadvanced.member old hold
    exact ⟨before, part, line, hfront, hstart.trans hbefore, hline, by rw [hstart, hhead, hold']⟩
  · intro member hopen declaration hdeclaration
    obtain ⟨old, hold, hstart, -⟩ := hmember member hopen
    rw [hstart]
    exact hadvanced.inside old hold declaration hdeclaration

/-- A member that has ended is the last one of its type. -/
theorem Places.finishMember (h : state.Places source front rest) {member : OpenMember}
    (hmember : state.member = some member) {span : NamedSpan source}
    (hhead : span.head = member.head) (hstart : span.start = member.start)
    (hstop : span.stop ≤ front.byteSize) :
    (state.finishMember (LineMap.ofText source) span.stop).Places source front rest := by
  have hsymbol : member.head.symbol (LineMap.ofText source) member.start span.stop [] =
      span.symbol [] := by
    rw [NamedSpan.symbol, hhead, hstart]
  rw [Outliner.finishMember, hmember]
  dsimp only
  refine ⟨h.source_eq, h.symbols, ?_, by rintro _ ⟨⟩, by rintro _ ⟨⟩⟩
  intro declaration hdeclaration
  obtain ⟨old, hold, rfl⟩ := Option.map_eq_some_iff.mp hdeclaration
  obtain ⟨hcuts, hle, hlt, -⟩ := h.declaration old hold
  obtain ⟨hbehind, hmembers⟩ := h.inside member hmember old hold
  rw [← hstart] at hbehind hmembers
  refine ⟨hcuts, hle, hlt, ?_⟩
  dsimp only
  rw [hsymbol]
  exact (hmembers.concat span hbehind (Nat.le_refl _)).mono hstop

/-- A member that ends with a character. -/
theorem Places.finishMember_concat (h : state.Places source front (c :: rest))
    (hc : Text.isHeadChar c = false) (depth : Int) :
    ({ state with depth := depth }.finishMember (LineMap.ofText source)
      (front ++ [c]).byteSize).Places source (front ++ [c]) rest := by
  have hadvanced := h.advance depth
  cases hmember : state.member with
  | none =>
    rw [hmember] at hadvanced
    exact hadvanced
  | some member =>
    obtain ⟨span, hhead, hstart, hstop⟩ := (h.member member hmember).exists_span h.source_eq hc
    rw [hmember] at hadvanced
    rw [← hstop]
    exact hadvanced.finishMember rfl hhead hstart (Nat.le_of_eq hstop)

/-- The brace that ends a type. -/
theorem Places.finishDeclaration (h : state.Places source front ('}' :: rest)) (depth : Int) :
    ({ state with depth := depth }.finishDeclaration (LineMap.ofText source)
      (front ++ ['}']).byteSize).Places source (front ++ ['}']) rest := by
  have hadvanced := h.advance depth
  rw [Outliner.finishDeclaration]
  dsimp only
  cases hdeclaration : state.declaration with
  | none =>
    exact ⟨hadvanced.source_eq, h.symbols, by rintro _ ⟨⟩, by rintro _ ⟨⟩, by rintro _ ⟨⟩⟩
  | some declaration =>
    obtain ⟨hcuts, -, -, hmembers⟩ := h.declaration declaration hdeclaration
    refine ⟨hadvanced.source_eq, ?_, by rintro _ ⟨⟩, by rintro _ ⟨⟩, by rintro _ ⟨⟩⟩
    intro symbol hsymbol
    rcases List.mem_append.mp hsymbol with hold | hnew
    · exact h.symbols symbol hold
    · rw [List.mem_singleton.mp hnew]
      refine ⟨declaration.start, (front ++ ['}']).byteSize, front.byteSize, hcuts,
        ⟨front ++ ['}'], rest, hadvanced.source_eq, rfl⟩, ?_, rfl, hmembers⟩
      rw [Text.byteSize_append]
      exact Nat.lt_succ_self _

/-- Past one character. -/
theorem Places.step (h : state.Places source front (c :: rest)) :
    (state.step (LineMap.ofText source) front.byteSize c).Places source (front ++ [c]) rest := by
  have hsame : state.Places source (front ++ [c]) rest := h.advance state.depth
  have hstop : c.utf8Size = 1 → front.byteSize + 1 = (front ++ [c]).byteSize := by
    intro hone
    rw [Text.byteSize_append, Text.byteSize_cons, hone, Text.byteSize_nil]
  rw [Outliner.step]
  split
  · next hc =>
    obtain rfl : c = '{' := by simpa using hc
    exact h.openBrace
  · split
    · next hc =>
      obtain rfl : c = '}' := by simpa using hc
      rw [Outliner.closeBrace, hstop rfl]
      dsimp only
      split
      · exact h.finishMember_concat (by decide +kernel) _
      · split
        · exact h.finishDeclaration _
        · exact h.advance _
    · split
      · next hc =>
        obtain rfl : c = ';' := by simpa using hc
        rw [Outliner.finishBodiless, hstop rfl]
        split
        · exact h.finishMember_concat (by decide +kernel) state.depth
        · exact hsame
      · exact hsame

theorem Places.steps {line : Text} (h : state.Places source front (line ++ rest)) :
    (state.steps (LineMap.ofText source) front.byteSize line).Places source (front ++ line) rest := by
  induction line generalizing front state with
  | nil =>
    rw [List.append_nil]
    exact h
  | cons c line ih =>
    have hline := ih h.step
    rw [← List.append_cons, Text.byteSize_append] at hline
    exact hline

/-- What a line opens starts behind all that was found. -/
theorem Places.beginLine {line : Text} (h : state.Places source front (line ++ rest))
    (hbalanced : state.Balanced) :
    (state.beginLine front.byteSize line).Places source front (line ++ rest) := by
  rcases state.beginLine_cases front.byteSize line with
    heq | ⟨head, hdepth, -, heq⟩ | ⟨head, hdepth, -, hhead, heq⟩ <;> rw [heq]
  · exact h
  · -- at depth 0 no member is open
    have hnone : ∀ member, state.member ≠ some member := by
      intro member hmember
      have := (hbalanced member hmember).1
      omega
    refine ⟨h.source_eq, h.symbols, ?_, h.member, fun member hmember => absurd hmember (hnone member)⟩
    rintro declaration ⟨⟩
    exact ⟨⟨front, _, h.source_eq, rfl⟩, Nat.le_refl _, fun hne => absurd hdepth hne, .nil _ _ _⟩
  · refine ⟨h.source_eq, h.symbols, h.declaration, ?_, ?_⟩
    · rintro member ⟨⟩
      exact ⟨front, [], line, (List.append_nil _).symm, rfl, List.prefix_append line rest, hhead⟩
    · rintro member ⟨⟩ declaration hdeclaration
      obtain ⟨-, -, hlt, hmembers⟩ := h.declaration declaration hdeclaration
      exact ⟨hlt (by omega), hmembers⟩

/-! ## Lines -/

/-- What is known of the outliner between two lines: an open member has a body. -/
structure Tracks (source front rest : Text) (state : Outliner) : Prop where
  places : state.Places source front rest
  balanced : state.Balanced
  settled : ∀ member ∈ state.member, member.hasBody = true

theorem Tracks.readLine {line : Text} (h : state.Tracks source front (line ++ rest)) :
    (state.readLine (LineMap.ofText source) front.byteSize line).Tracks source (front ++ line)
      rest := by
  have hsplit := Text.leadingBlanks_append_trimStart line
  have hoffset : front.byteSize + (line.byteSize - line.trimStart.byteSize) =
      (front ++ line.leadingBlanks).byteSize := by
    have hsize := congrArg Text.byteSize hsplit
    rw [Text.byteSize_append] at hsize ⊢
    omega
  have hcontent : state.Places source (front ++ line.leadingBlanks) (line.trimStart ++ rest) := by
    refine Places.advance_append ?_
    rw [← List.append_assoc, hsplit]
    exact h.places
  rw [Outliner.readLine, hoffset]
  generalize hopened : state.beginLine (front ++ line.leadingBlanks).byteSize line.trimStart = opened
  have hbegun := hcontent.beginLine h.balanced
  rw [hopened] at hbegun
  have hread := hbegun.steps
  rw [List.append_assoc, hsplit, Text.byteSize_append,
    ← steps_blanks _ _ _ (fun c hc => Text.isBlank_of_mem_leadingBlanks hc), hsplit] at hread
  have hbalanced : (opened.steps (LineMap.ofText source) front.byteSize line).Balanced := by
    rw [← hopened]
    exact (h.balanced.beginLine _ _).steps _ _
  refine ⟨?_, hbalanced.finishBodiless _, fun member => hbalanced.hasBody_of_finishBodiless⟩
  rw [Outliner.finishBodiless]
  split
  · next hends =>
    rw [Bool.and_eq_true, Option.any_eq_true] at hends
    obtain ⟨-, member, hmember, hbodiless⟩ := hends
    obtain ⟨old, hold, hstart, hhead, hbody⟩ := exists_member_of_steps hmember
    rcases member_of_beginLine (hopened ▸ hold) with hbefore | ⟨hat, hannounced⟩
    · -- a member from an earlier line has a body
      rw [hbody (h.settled old hbefore)] at hbodiless
      cases hbodiless
    · obtain ⟨span, hspan, hspanStart, hspanStop⟩ :=
        exists_span_of_line h.places.source_eq hsplit.symm hannounced
      rw [← hspanStop]
      refine hread.finishMember hmember (hspan.trans hhead.symm)
        (hspanStart.trans (hat.symm.trans hstart.symm)) ?_
      obtain ⟨tail, htail⟩ := Text.trimEnd_prefix line
      have hsize := congrArg Text.byteSize htail
      rw [Text.byteSize_append] at hsize ⊢
      omega
  · exact hread

theorem Tracks.readLines {lines : List Text} (h : state.Tracks source front (lines.flatten ++ rest)) :
    (state.readLines (LineMap.ofText source) front.byteSize lines).Tracks source
      (front ++ lines.flatten) rest := by
  induction lines generalizing front state with
  | nil =>
    rw [List.flatten_nil, List.append_nil]
    exact h
  | cons line lines ih =>
    rw [List.flatten_cons, List.append_assoc] at h
    have hlines := ih h.readLine
    rw [Text.byteSize_append, List.append_assoc] at hlines
    exact hlines

end Outliner

/-! ## Outlines -/

theorem holdsMembers_of_mem_outline {source : Text} {symbol : DocumentSymbol}
    (h : symbol ∈ outline source) : HoldsMembers source symbol := by
  have hstart : Outliner.initial.Tracks source [] (source.lines.flatten ++ []) := by
    rw [Text.flatten_lines, List.append_nil]
    exact ⟨Outliner.places_initial source, Outliner.balanced_of_member_eq_none rfl, by rintro _ ⟨⟩⟩
  exact hstart.readLines.places.symbols symbol h

namespace HoldsMembers

variable {source : Text} {symbol : DocumentSymbol}

/-- A member has no members, names itself and stands inside of its type. -/
theorem child (h : HoldsMembers source symbol) (hsize : source.byteSize < 4294967296)
    {child : DocumentSymbol} (hchild : child ∈ symbol.children) :
    child.children = [] ∧ child.NamesItself (LineMap.ofText source) ∧
      symbol.range.start < child.range.start ∧ child.range.stop < symbol.range.stop := by
  obtain ⟨start, stop, last, hstart, hstop, hlast, hrange, spans, hspans, -, hbetween⟩ := h
  rw [hspans] at hchild
  obtain ⟨span, hspan, rfl⟩ := List.mem_map.mp hchild
  obtain ⟨hbehind, hbefore⟩ := hbetween span hspan
  refine ⟨rfl, span.namesItself hsize [], ?_, ?_⟩ <;> rw [hrange]
  · exact (LineMap.positionAt_lt_iff hsize hstart span.cutsAt_start).mpr hbehind
  · exact (LineMap.positionAt_lt_iff hsize span.cutsAt_stop hstop).mpr
      (Nat.lt_of_le_of_lt hbefore hlast)

/-- Members stand apart. -/
theorem pairwise (h : HoldsMembers source symbol) (hsize : source.byteSize < 4294967296) :
    symbol.children.Pairwise fun a b => a.range.stop ≤ b.range.start := by
  obtain ⟨start, stop, last, -, -, -, -, spans, hspans, hordered, -⟩ := h
  rw [hspans, List.pairwise_map]
  exact hordered.imp fun {a b} =>
    (LineMap.positionAt_le_iff hsize a.cutsAt_stop b.cutsAt_start).mpr

end HoldsMembers

/-- **Outlines are well formed.** Whatever the source is, its symbols are classes and interfaces that
    stand apart and in order. Each starts with a character that is no blank, ends with a closing brace
    and holds members that stand apart and in order inside of it and hold nothing themselves. Symbols
    and members alike name themselves. -/
theorem outline_wellFormed {source : Text} (hsize : source.byteSize < 4294967296) :
    (outline source).Pairwise (fun a b => a.range.stop ≤ b.range.start) ∧
      ∀ symbol ∈ outline source,
        (symbol.kind = .classType ∨ symbol.kind = .interfaceType) ∧
        symbol.NamesItself (LineMap.ofText source) ∧
        (∃ first rest, (LineMap.ofText source).slice? symbol.range = some (first :: rest) ∧
          Text.isBlank first = false ∧ (first :: rest).getLast? = some '}') ∧
        symbol.children.Pairwise (fun a b => a.range.stop ≤ b.range.start) ∧
        ∀ child ∈ symbol.children,
          child.children = [] ∧ child.NamesItself (LineMap.ofText source) ∧
          symbol.range.start < child.range.start ∧ child.range.stop < symbol.range.stop := by
  obtain ⟨spans, hsymbols, hordered⟩ := exists_spans source
  refine ⟨?_, fun symbol hsymbol => ?_⟩
  · rw [hsymbols, List.pairwise_map]
    exact hordered.imp fun {a b} =>
      (LineMap.positionAt_le_iff hsize a.cutsAt_stop b.cutsAt_start).mpr
  · have hholds := holdsMembers_of_mem_outline hsymbol
    rw [hsymbols] at hsymbol
    obtain ⟨span, -, rfl⟩ := List.mem_map.mp hsymbol
    refine ⟨?_, span.namesItself hsize, ?_, hholds.pairwise hsize, fun child => hholds.child hsize⟩
    · exact SymbolKind.isType_iff.mp span.exists_announcement.1
    · obtain ⟨first, rest, htext, hfirst⟩ := span.exists_first
      have hslice := span.slice?_range hsize
      have hcloses := span.closes
      rw [htext] at hslice hcloses
      exact ⟨first, rest, hslice, hfirst, hcloses⟩

/-- A class with one member for each way to end, behind braces in the wrong order, and an interface. -/
def sampleOutlined : Text :=
  "\x7d\x7b\r\n\u00a0class Ä \x7b\r\n  é: T\t\n  static run() {}\n  x;\x7d\ninterface I {}".toList

theorem outline_sampleOutlined_wellFormed :
    (outline sampleOutlined).map (fun symbol => (symbol.name, symbol.range,
        symbol.children.map fun child => (child.name, child.range))) =
      [("Ä", ⟨⟨1, 1⟩, ⟨4, 5⟩⟩, [("é", ⟨⟨2, 2⟩, ⟨2, 6⟩⟩), ("run", ⟨⟨3, 2⟩, ⟨3, 17⟩⟩),
          ("x", ⟨⟨4, 2⟩, ⟨4, 4⟩⟩)]),
        ("I", ⟨⟨5, 0⟩, ⟨5, 14⟩⟩, [])] ∧
      ∀ symbol ∈ outline sampleOutlined, symbol.NamesItself (LineMap.ofText sampleOutlined) ∧
        ∀ child ∈ symbol.children, child.NamesItself (LineMap.ofText sampleOutlined) := by
  have hsize : sampleOutlined.byteSize < 4294967296 := by decide
  refine ⟨by decide +kernel, fun symbol hsymbol => ?_⟩
  obtain ⟨-, hnames, -, -, hchildren⟩ := (outline_wellFormed hsize).2 symbol hsymbol
  exact ⟨hnames, fun child hchild => (hchildren child hchild).2.1⟩

end Lineage
