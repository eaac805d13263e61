import Lineage.Proofs.Outline.HeadWords

set_option autoImplicit false

/-! # Where the names of symbols stand

A head is announced by words and blanks alone, and its name is the last of the words. So wherever a
type or a member ends, as long as some other character or the end of the words has come before, its
name lies inside of it. A `NamedSpan` is a part of a source with such a head, and a symbol made of one
names itself (`NamedSpan.namesItself`): its selection covers just its name, inside its range. -/

namespace Lineage

namespace Text

/-- Whether a character may stand in a head: in one of its words or between them. -/
def isHeadChar (c : Char) : Bool :=
  isIdentifierPart c || isBlank c

theorem isHeadChar_of_isIdentifierPart {c : Char} (h : isIdentifierPart c = true) :
    isHeadChar c = true := by
  rw [isHeadChar, h, Bool.true_or]

theorem isHeadChar_of_isBlank {c : Char} (h : isBlank c = true) : isHeadChar c = true := by
  rw [isHeadChar, h, Bool.or_true]

/-- Where an identifier character stands, a word does. -/
theorem word_ne_nil_of_part {name : Text} (hne : name ≠ [])
    (hname : ∀ c ∈ name, isIdentifierPart c = true) (rest : Text) : word (name ++ rest) ≠ [] := by
  rw [word, List.takeWhile_append_of_pos hname]
  exact List.append_ne_nil_of_left_ne_nil hne _

end Text

/-! ## Heads -/

namespace Head

/-- A head is announced at `offset`: by words and blanks, the text `lead`, up to its name. -/
structure Leads (head : Head) (offset : Nat) (lead : Text) : Prop where
  offset_eq : head.offset = offset + lead.byteSize
  lead_char : ∀ c ∈ lead, Text.isHeadChar c = true
  name_ne : head.name ≠ []
  name_part : ∀ c ∈ head.name, Text.isIdentifierPart c = true

theorem exists_leads_of_declaration? {offset : Nat} {t : Text} {head : Head}
    (h : declaration? offset t = some head) :
    ∃ lead rest : Text, t = lead ++ (head.name ++ rest) ∧ head.Leads offset lead := by
  obtain ⟨-, -, announcement, rest, rfl, hannouncement, hoffset, hname, hne⟩ :=
    exists_of_declaration? h
  refine ⟨announcement, rest.afterWord, by rw [hname, Text.word_append_afterWord], hoffset, ?_,
    hname ▸ hne, ?_⟩
  · intro c hc
    refine Classical.byContradiction fun hchar => ?_
    rw [Text.isHeadChar, Bool.or_eq_true, not_or] at hchar
    exact hannouncement.not_mem hchar.1 hchar.2 hc
  · rw [hname]
    exact fun c hc => Text.isIdentifierPart_of_mem_word hc

theorem exists_leads_of_member? {offset : Nat} {t : Text} {head : Head}
    (h : member? offset t = some head) :
    ∃ lead rest : Text, t = lead ++ (head.name ++ rest) ∧ head.Leads offset lead := by
  fun_induction member? offset t with
  | case1 => cases h
  | case2 offset t word rest next hword hmodifier ih =>
    -- a modifier and the blanks behind it lead to what comes next
    obtain ⟨lead, after, hrest, hleads⟩ := ih h
    refine ⟨t.word ++ (Text.leadingBlanks t.afterWord ++ lead), after, ?_, ?_, ?_, hleads.name_ne,
      hleads.name_part⟩
    · rw [List.append_assoc, List.append_assoc, ← hrest, Text.append_nextWord]
    · have hnext : next = offset + _ := congrArg (offset + ·) (Text.byteSize_sub_nextWord t)
      rw [hleads.offset_eq, hnext]
      simp only [Text.byteSize_append]
      omega
    · intro c hc
      rcases List.mem_append.mp hc with hword | hc
      · exact Text.isHeadChar_of_isIdentifierPart (Text.isIdentifierPart_of_mem_word hword)
      · rcases List.mem_append.mp hc with hblank | hlead
        · exact Text.isHeadChar_of_isBlank (Text.isBlank_of_mem_leadingBlanks hblank)
        · exact hleads.lead_char c hlead
  | case3 offset t word rest hword hname =>
    obtain ⟨kind, -, rfl⟩ := Option.map_eq_some_iff.mp h
    exact ⟨[], t.afterWord, (Text.word_append_afterWord t).symm, rfl, by simp, hword,
      fun c hc => Text.isIdentifierPart_of_mem_word hc⟩

/-- A part of a text that holds a character foreign to heads holds the whole head in front of it. -/
theorem Leads.prefix_of_mem {head : Head} {offset : Nat} {lead line rest part more : Text}
    (h : head.Leads offset lead) (hline : line = lead ++ (head.name ++ rest))
    (hmore : line <+: part ++ more) {c : Char} (hc : c ∈ part) (hchar : Text.isHeadChar c = false) :
    lead ++ head.name <+: part := by
  have hhead : lead ++ head.name <+: part ++ more := by
    refine List.IsPrefix.trans ⟨rest, ?_⟩ hmore
    rw [hline, List.append_assoc]
  rcases List.prefix_or_prefix_of_prefix hhead (List.prefix_append part more) with hle | hle
  · exact hle
  · -- the foreign character would be in the head
    have hmem := hle.subset hc
    rcases List.mem_append.mp hmem with hlead | hname
    · rw [h.lead_char c hlead] at hchar
      cases hchar
    · rw [Text.isHeadChar_of_isIdentifierPart (h.name_part c hname)] at hchar
      cases hchar

end Head

/-! ## Named parts of a source -/

/-- A part of a source that starts with a head: what leads to the name, the name, and what trails
    it. -/
structure NamedSpan (source : Text) where
  head : Head
  before : Text
  lead : Text
  trail : Text
  after : Text
  source_eq : source = before ++ (lead ++ (head.name ++ (trail ++ after)))
  leads : head.Leads before.byteSize lead

/-- A symbol names itself: its selection covers its name and lies in its range. -/
structure DocumentSymbol.NamesItself (map : LineMap) (symbol : DocumentSymbol) : Prop where
  slice : map.slice? symbol.selection = some symbol.name.toList
  start_le : symbol.range.start ≤ symbol.selection.start
  start_lt_stop : symbol.selection.start < symbol.selection.stop
  stop_le : symbol.selection.stop ≤ symbol.range.stop

namespace NamedSpan

variable {source : Text}

/-- The offset of the first character. -/
def start (span : NamedSpan source) : Nat :=
  span.before.byteSize

/-- The offset behind the last character. -/
def stop (span : NamedSpan source) : Nat :=
  (span.before ++ (span.lead ++ (span.head.name ++ span.trail))).byteSize

/-- The symbol of a named part, with some children. -/
def symbol (span : NamedSpan source) (children : List DocumentSymbol) : DocumentSymbol :=
  span.head.symbol (LineMap.ofText source) span.start span.stop children

/-- A part of a source that holds a head is a named part. -/
theorem exists_of_prefix {before text after lead : Text} {head : Head}
    (hsource : source = before ++ (text ++ after)) (hleads : head.Leads before.byteSize lead)
    (hwhole : lead ++ head.name <+: text) :
    ∃ span : NamedSpan source, span.head = head ∧ span.start = before.byteSize ∧
      span.stop = (before ++ text).byteSize := by
  obtain ⟨trail, rfl⟩ := hwhole
  refine ⟨⟨head, before, lead, trail, after, ?_, hleads⟩, rfl, rfl, ?_⟩
  · rw [hsource]
    simp
  · show (before ++ (lead ++ (head.name ++ trail))).byteSize = _
    rw [List.append_assoc lead]

variable (span : NamedSpan source)

theorem cutsAt_start : source.CutsAt span.start :=
  ⟨span.before, _, span.source_eq, rfl⟩

theorem cutsAt_stop : source.CutsAt span.stop :=
  ⟨span.before ++ (span.lead ++ (span.head.name ++ span.trail)), span.after,
    span.source_eq.trans (by simp), rfl⟩

theorem offset_eq : span.head.offset = (span.before ++ span.lead).byteSize := by
  rw [span.leads.offset_eq, Text.byteSize_append]

theorem cutsAt_name : source.CutsAt span.head.offset :=
  ⟨span.before ++ span.lead, span.head.name ++ (span.trail ++ span.after),
    span.source_eq.trans (by simp), span.offset_eq.symm⟩

theorem nameStop_eq : span.head.offset + span.head.name.byteSize =
    (span.before ++ span.lead ++ span.head.name).byteSize := by
  rw [span.offset_eq, Text.byteSize_append (span.before ++ span.lead)]

theorem cutsAt_nameStop : source.CutsAt (span.head.offset + span.head.name.byteSize) :=
  ⟨span.before ++ span.lead ++ span.head.name, span.trail ++ span.after,
    span.source_eq.trans (by simp), span.nameStop_eq.symm⟩

theorem start_le_name : span.start ≤ span.head.offset := by
  rw [span.offset_eq, Text.byteSize_append]
  exact Nat.le_add_right _ _

theorem nameStop_le : span.head.offset + span.head.name.byteSize ≤ span.stop := by
  rw [span.nameStop_eq, stop]
  simp only [Text.byteSize_append]
  omega

theorem byteSize_name_pos : 0 < span.head.name.byteSize :=
  Nat.pos_of_ne_zero fun hzero => span.leads.name_ne (Text.eq_nil_of_byteSize hzero)

theorem start_lt_stop : span.start < span.stop := by
  have hstart := span.start_le_name
  have hstop := span.nameStop_le
  have hpos := span.byteSize_name_pos
  omega

/-- The name is what stands between its ends. -/
theorem slice?_name (hsize : source.byteSize < 4294967296) :
    (LineMap.ofText source).slice? ((LineMap.ofText source).rangeBetween span.head.offset
      (span.head.offset + span.head.name.byteSize)) = some span.head.name := by
  have hsource : source =
      (span.before ++ span.lead) ++ (span.head.name ++ (span.trail ++ span.after)) :=
    span.source_eq.trans (by simp)
  have hstart : ¬ Text.SplitsTerminator (span.before ++ span.lead)
      (span.head.name ++ (span.trail ++ span.after)) :=
    Text.not_splitsTerminator _
      (Text.word_ne_nil_of_part span.leads.name_ne span.leads.name_part _)
  have hstop : ¬ Text.SplitsTerminator (span.before ++ span.lead ++ span.head.name)
      (span.trail ++ span.after) := by
    rintro ⟨hreturn, -⟩
    have hlast := span.leads.name_part _ (List.getLast_mem span.leads.name_ne)
    rw [List.getLast?_append, List.getLast?_eq_some_getLast span.leads.name_ne, Option.some_or,
      Option.some.injEq] at hreturn
    rw [hreturn] at hlast
    revert hlast
    decide +kernel
  have hslice := LineMap.slice?_rangeBetween (hsource ▸ hsize) hstart hstop
  rwa [← hsource, ← span.offset_eq, ← span.nameStop_eq] at hslice

/-- The symbol of a named part names itself. -/
theorem namesItself (hsize : source.byteSize < 4294967296) (children : List DocumentSymbol) :
    (span.symbol children).NamesItself (LineMap.ofText source) := by
  have hpos := span.byteSize_name_pos
  constructor
  · show _ = some (String.ofList span.head.name).toList
    rw [String.toList_ofList]
    exact span.slice?_name hsize
  · exact (LineMap.positionAt_le_iff hsize span.cutsAt_start span.cutsAt_name).mpr
      span.start_le_name
  · exact (LineMap.positionAt_lt_iff hsize span.cutsAt_name span.cutsAt_nameStop).mpr (by omega)
  · exact (LineMap.positionAt_le_iff hsize span.cutsAt_nameStop span.cutsAt_stop).mpr
      span.nameStop_le

end NamedSpan

/-! ## Types -/

namespace TypeSpan

variable {source : Text} (span : TypeSpan source)

/-- A type ends behind its brace, so its name lies inside. -/
theorem namesItself (hsize : source.byteSize < 4294967296) :
    span.symbol.NamesItself (LineMap.ofText source) := by
  obtain ⟨line, hline, hhead⟩ := span.announced
  obtain ⟨lead, rest, heq, hleads⟩ := Head.exists_leads_of_declaration? hhead
  have hwhole := hleads.prefix_of_mem heq hline span.opens (by decide +kernel)
  obtain ⟨named, hnamed, hstart, hstop⟩ := NamedSpan.exists_of_prefix span.source_eq hleads hwhole
  have hsymbol : span.symbol = named.symbol span.members := by
    rw [symbol, NamedSpan.symbol, hnamed, hstart, hstop]
    rfl
  rw [hsymbol]
  exact named.namesItself hsize span.members

/-- A type starts with the first word of its head. -/
theorem exists_first : ∃ first rest, span.text = first :: rest ∧ Text.isBlank first = false := by
  obtain ⟨-, announcement, rest, -, -, -, hword, -⟩ := span.exists_announcement
  obtain ⟨first, rest, htext⟩ := List.exists_cons_of_ne_nil (List.ne_nil_of_mem span.opens)
  refine ⟨first, rest, htext, Bool.eq_false_iff.mpr fun hblank => hword ?_⟩
  rw [htext, List.cons_append, Text.word]
  exact List.takeWhile_cons_of_neg (Text.not_isIdentifierPart_of_isBlank hblank)

end TypeSpan
end Lineage
