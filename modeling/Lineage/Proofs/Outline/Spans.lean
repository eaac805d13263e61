import Lineage.Outline
import Lineage.Proofs.Clause.References

set_option autoImplicit false

/-! # Where outlined types stand

Each symbol of an outline stands for a part of the source, a `TypeSpan`: a text that is announced by a
head, opens a brace and ends with the closing brace that the outliner took for its end. The spans of
an outline are in source order and do not overlap (`exists_spans`), whatever the source is.

The outliner reads line by line and opens a declaration at the first character of a line that is no
blank, before it has read the blanks in front of it. As those change nothing, one may think of them as
read first: then the invariant `Outliner.Follows` holds between any two characters. -/

namespace Lineage

open SupertypeClauses

/-! ## Heads -/

namespace Head

/-- One word of an announcement. -/
theorem announcement_word {t rest : Text} (hkeyword : ∀ keyword : Keyword, t.word ≠ keyword.letters)
    (hnext : Text.word (t.nextWord) ≠ []) (h : Announcement rest) :
    Announcement (t.word ++ (Text.leadingBlanks t.afterWord ++ rest)) :=
  .word (fun _ hc => Text.isIdentifierPart_of_mem_word hc) hkeyword (Text.leadingBlanks_ne_nil hnext)
    (fun _ hc => Text.isBlank_of_mem_leadingBlanks hc) h

theorem ne_letters_of_declaredKind? {word : Text} {kind : SymbolKind}
    (h : declaredKind? word = some kind) : kind.isType = true ∧
      ∀ keyword : Keyword, word ≠ keyword.letters := by
  rw [declaredKind?] at h
  split at h
  · next hword =>
    cases h
    refine ⟨rfl, fun keyword => ?_⟩
    rw [hword]
    cases keyword <;> decide
  · split at h
    · next hword =>
      cases h
      refine ⟨rfl, fun keyword => ?_⟩
      rw [hword]
      cases keyword <;> decide
    · cases h

theorem ne_letters_of_mem_declarationModifiers {word : Text} (h : word ∈ declarationModifiers)
    (keyword : Keyword) : word ≠ keyword.letters := by
  rintro rfl
  revert h
  cases keyword <;> decide

/-- A head: words that are no keywords of clauses, and the name. -/
theorem exists_of_declaration? {offset : Nat} {t : Text} {head : Head}
    (h : declaration? offset t = some head) :
    t.word ≠ [] ∧ head.kind.isType = true ∧ ∃ announcement rest : Text, t = announcement ++ rest ∧
      Announcement announcement ∧ head.offset = offset + announcement.byteSize ∧
      head.name = rest.word ∧ rest.word ≠ [] := by
  induction hlength : t.length using Nat.strongRecOn generalizing offset t with
  | ind length ih =>
    have hsplit := Text.append_nextWord t
    have hnext : offset + (t.byteSize - t.nextWord.byteSize) =
        offset + Text.byteSize (t.word ++ Text.leadingBlanks t.afterWord) := by
      rw [Text.byteSize_sub_nextWord]
    rw [declaration?] at h
    split at h
    · cases h
    · next hword =>
      split at h
      · next kind hkind =>
        split at h
        · cases h
        · next hname =>
          cases h
          have hname' : Text.word t.nextWord ≠ [] := by simpa using hname
          obtain ⟨htype, hkeyword⟩ := ne_letters_of_declaredKind? hkind
          refine ⟨hword, htype, t.word ++ (Text.leadingBlanks t.afterWord ++ []), t.nextWord, ?_,
            announcement_word hkeyword hname' .nil, ?_, rfl, hname'⟩
          · rw [List.append_nil, List.append_assoc, hsplit]
          · rw [List.append_nil]
            exact hnext
      · split at h
        · next hmodifier =>
          rw [List.contains_iff_mem] at hmodifier
          obtain ⟨hnext', htype, announcement, rest, hrest, hannouncement, hoffset, hname, hne⟩ :=
            ih _ (hlength ▸ Text.length_nextWord_lt hword) h rfl
          refine ⟨hword, htype, t.word ++ (Text.leadingBlanks t.afterWord ++ announcement), rest, ?_,
            announcement_word (ne_letters_of_mem_declarationModifiers hmodifier) hnext' hannouncement,
            ?_, hname, hne⟩
          · rw [List.append_assoc, List.append_assoc, ← hrest, hsplit]
          · rw [hoffset, hnext]
            simp only [Text.byteSize_append]
            omega
        · cases h

end Head

/-! ## Spans -/

/-- A type that stands in a source, with what stands before and after it. -/
structure TypeSpan (source : Text) where
  before : Text
  text : Text
  after : Text
  head : Head
  members : List DocumentSymbol
  source_eq : source = before ++ (text ++ after)
  announced : ∃ line, line <+: text ++ after ∧ Head.declaration? before.byteSize line = some head
  opens : '{' ∈ text
  closes : text.getLast? = some '}'

namespace TypeSpan

variable {source : Text}

/-- The offset of the first character. -/
def start (span : TypeSpan source) : Nat :=
  span.before.byteSize

/-- The offset behind the last character. -/
def stop (span : TypeSpan source) : Nat :=
  (span.before ++ span.text).byteSize

/-- The symbol of a span. -/
def symbol (span : TypeSpan source) : DocumentSymbol :=
  span.head.symbol (LineMap.ofText source) span.start span.stop span.members

end TypeSpan

/-! ## The outliner -/

namespace Outliner

/-- The head and the offset of the open declaration. -/
def opened (state : Outliner) : Option (Head × Nat) :=
  state.declaration.map fun declaration => (declaration.head, declaration.start)

/-- What is known of the outliner between `front` and `rest`. The types it has found are spans in order,
    and an open declaration starts behind them; its brace is open if any is. -/
structure Follows (source front rest : Text) (state : Outliner) : Prop where
  source_eq : source = front ++ rest
  symbols : ∃ spans : List (TypeSpan source), state.symbols = spans.map TypeSpan.symbol ∧
    spans.Pairwise (fun a b => a.stop ≤ b.start) ∧
    (∀ span ∈ spans, span.stop ≤ front.byteSize) ∧
    ∀ announced ∈ state.opened, ∀ span ∈ spans, span.stop ≤ announced.2
  opened : ∀ announced ∈ state.opened, ∃ before part, front = before ++ part ∧
    announced.2 = before.byteSize ∧
    (∃ line, line <+: part ++ rest ∧ Head.declaration? announced.2 line = some announced.1) ∧
    (0 < state.depth → '{' ∈ part)

variable {source front rest : Text} {state state' : Outliner} {map : LineMap} {c : Char}

/-- The members of a declaration do not matter. -/
theorem Follows.of_eq (h : state.Follows source front rest) (hsymbols : state'.symbols = state.symbols)
    (hopened : state'.opened = state.opened) (hdepth : state'.depth = state.depth) :
    state'.Follows source front rest := by
  refine ⟨h.source_eq, ?_, ?_⟩
  · rw [hsymbols, hopened]
    exact h.symbols
  · rw [hopened, hdepth]
    exact h.opened

theorem follows_initial (source : Text) : initial.Follows source [] source := by
  refine ⟨rfl, ⟨[], rfl, .nil, ?_, ?_⟩, ?_⟩
  · rintro span ⟨⟩
  · rintro announced ⟨⟩
  · rintro announced ⟨⟩

/-- Past a character that ends no declaration. Only an opening brace may make the depth positive. -/
theorem Follows.advance (h : state.Follows source front (c :: rest)) (depth : Int)
    (hdepth : 0 < depth → 0 < state.depth ∨ c = '{') :
    { state with depth := depth }.Follows source (front ++ [c]) rest := by
  refine ⟨by rw [h.source_eq, List.append_cons], ?_, ?_⟩
  · obtain ⟨spans, hsymbols, hordered, hpassed, hopened⟩ := h.symbols
    refine ⟨spans, hsymbols, hordered, fun span hspan => ?_, hopened⟩
    have := hpassed span hspan
    rw [Text.byteSize_append]
    omega
  · intro announced hannounced
    obtain ⟨before, part, hfront, hstart, ⟨line, hline, hhead⟩, hbrace⟩ :=
      h.opened announced hannounced
    refine ⟨before, part ++ [c], by rw [hfront, List.append_assoc], hstart, ⟨line, ?_, hhead⟩, ?_⟩
    · rwa [← List.append_cons]
    · intro hpositive
      rcases hdepth hpositive with hpositive | rfl
      · exact List.mem_append_left _ (hbrace hpositive)
      · exact List.mem_append_right _ (List.mem_singleton_self _)

theorem opened_finishMember (map : LineMap) (state : Outliner) (stop : Nat) :
    (state.finishMember map stop).opened = state.opened := by
  rw [finishMember]
  cases state.member with
  | none => rfl
  | some member =>
    dsimp only [opened]
    rw [Option.map_map]
    rfl

theorem Follows.finishMember (h : state.Follows source front rest) (stop : Nat) :
    (state.finishMember map stop).Follows source front rest := by
  refine h.of_eq ?_ (opened_finishMember map state stop) ?_ <;>
    rw [Outliner.finishMember] <;> cases state.member <;> rfl

theorem Follows.finishBodiless (h : state.Follows source front rest) (stop : Nat) :
    (state.finishBodiless map stop).Follows source front rest := by
  rw [Outliner.finishBodiless]
  split
  · exact h.finishMember stop
  · exact h

/-- The brace that ends a declaration. -/
theorem Follows.finishDeclaration (h : state.Follows source front ('}' :: rest))
    (hdepth : state.depth = 1) :
    ({ state with depth := 0 }.finishDeclaration (LineMap.ofText source) (front.byteSize + 1)).Follows
      source (front ++ ['}']) rest := by
  have hadvanced := h.advance 0 (by omega)
  rw [Outliner.finishDeclaration]
  cases hdeclaration : state.declaration with
  | none =>
    refine hadvanced.of_eq rfl ?_ rfl
    rw [Outliner.opened, Outliner.opened, hdeclaration]
  | some declaration =>
    have hopened : (declaration.head, declaration.start) ∈ state.opened := by
      rw [Outliner.opened, hdeclaration]
      rfl
    obtain ⟨spans, hsymbols, hordered, hpassed, hbehind⟩ := hadvanced.symbols
    obtain ⟨before, part, hfront, hstart, hannounced, hbrace⟩ := h.opened _ hopened
    let span : TypeSpan source :=
      { before := before
        text := part ++ ['}']
        after := rest
        head := declaration.head
        members := declaration.members
        source_eq := by rw [h.source_eq, hfront]; simp
        announced := by
          rw [← hstart]
          simpa using hannounced
        opens := List.mem_append_left _ (hbrace (by omega))
        closes := List.getLast?_concat }
    have hstop : span.stop = front.byteSize + 1 := by
      show (before ++ (part ++ ['}'])).byteSize = _
      rw [hfront, ← List.append_assoc, Text.byteSize_append]
      rfl
    refine ⟨hadvanced.source_eq, ⟨spans ++ [span], ?_, ?_, ?_, ?_⟩, ?_⟩
    · rw [List.map_append, ← hsymbols, List.map_singleton]
      show _ = _ ++ [declaration.head.symbol _ span.start span.stop declaration.members]
      have hstart' : span.start = declaration.start := hstart.symm
      rw [hstop, hstart']
    · refine List.pairwise_append.mpr ⟨hordered, List.pairwise_singleton _ _, ?_⟩
      intro other hother last hlast
      obtain rfl := List.mem_singleton.mp hlast
      have := hbehind _ hopened other hother
      rwa [hstart] at this
    · intro other hother
      rcases List.mem_append.mp hother with hother | hother
      · exact hpassed other hother
      · obtain rfl := List.mem_singleton.mp hother
        rw [hstop, Text.byteSize_append]
        exact Nat.le_refl _
    · rintro announced ⟨⟩
    · rintro announced ⟨⟩

/-- Past one character. -/
theorem Follows.step (h : state.Follows source front (c :: rest)) :
    (state.step (LineMap.ofText source) front.byteSize c).Follows source (front ++ [c]) rest := by
  have hsame : state.Follows source (front ++ [c]) rest := h.advance state.depth fun hpositive => .inl hpositive
  rw [Outliner.step]
  split
  · next hc =>
    obtain rfl : c = '{' := by simpa using hc
    exact (h.advance (state.depth + 1) fun _ => .inr rfl).of_eq rfl rfl rfl
  · split
    · next hc =>
      obtain rfl : c = '}' := by simpa using hc
      have hclosed : { state with depth := state.depth - 1 }.Follows source (front ++ ['}']) rest :=
        h.advance (state.depth - 1) fun hpositive => .inl (by omega)
      rw [Outliner.closeBrace]
      dsimp only
      split
      · exact hclosed.finishMember _
      · split
        · next hzero =>
          rw [hzero]
          exact h.finishDeclaration (by omega)
        · exact hclosed
    · split
      · exact hsame.finishBodiless _
      · exact hsame

theorem Follows.steps {line : Text} (h : state.Follows source front (line ++ rest)) :
    (state.steps (LineMap.ofText source) front.byteSize line).Follows source (front ++ line) rest := by
  induction line generalizing front state with
  | nil =>
    rw [List.append_nil]
    exact h
  | cons c line ih =>
    have hline := ih h.step
    rw [← List.append_cons, Text.byteSize_append] at hline
    exact hline

/-! ## Lines -/

/-- Blanks change nothing. -/
theorem steps_blanks (map : LineMap) (state : Outliner) (offset : Nat) {blanks : Text}
    (h : ∀ c ∈ blanks, Text.isBlank c = true) (line : Text) :
    state.steps map offset (blanks ++ line) = state.steps map (offset + blanks.byteSize) line := by
  induction blanks generalizing offset with
  | nil => rfl
  | cons c blanks ih =>
    have hc := h c List.mem_cons_self
    have hstep : state.step map offset c = state := by
      have hopen : c ≠ '{' := by rintro rfl; revert hc; decide
      have hclose : c ≠ '}' := by rintro rfl; revert hc; decide
      have hsemicolon : c ≠ ';' := by rintro rfl; revert hc; decide
      simp [Outliner.step, hopen, hclose, hsemicolon]
    rw [List.cons_append, Outliner.steps, hstep, ih _ fun c' hc' => h c' (List.mem_cons_of_mem _ hc'),
      Text.byteSize_cons, Nat.add_assoc]

theorem Follows.advance_append {blanks : Text} (h : state.Follows source front (blanks ++ rest)) :
    state.Follows source (front ++ blanks) rest := by
  induction blanks generalizing front with
  | nil =>
    rw [List.append_nil]
    exact h
  | cons c blanks ih =>
    rw [List.append_cons]
    exact ih (h.advance state.depth fun hpositive => .inl hpositive)

/-- What a line announces starts where the line does. -/
theorem Follows.beginLine {line : Text} (h : state.Follows source front (line ++ rest)) :
    (state.beginLine front.byteSize line).Follows source front (line ++ rest) := by
  rw [Outliner.beginLine]
  split
  · next hfree =>
    split
    · next head hhead =>
      rw [Bool.and_eq_true, decide_eq_true_iff] at hfree
      obtain ⟨spans, hsymbols, hordered, hpassed, -⟩ := h.symbols
      refine ⟨h.source_eq, ⟨spans, hsymbols, hordered, hpassed, ?_⟩, ?_⟩
      · rintro announced ⟨⟩
        exact hpassed
      · rintro announced ⟨⟩
        refine ⟨front, [], (List.append_nil _).symm, rfl, ⟨line, ?_, hhead⟩, ?_⟩
        · exact List.prefix_append line rest
        · intro hpositive
          dsimp only at hpositive
          omega
    · exact h
  · split
    · split
      · exact h.of_eq rfl rfl rfl
      · exact h
    · exact h

theorem Follows.readLine {line : Text} (h : state.Follows source front (line ++ rest)) :
    (state.readLine (LineMap.ofText source) front.byteSize line).Follows source (front ++ line)
      rest := by
  have hsplit := Text.leadingBlanks_append_trimStart line
  have hoffset : front.byteSize + (line.byteSize - line.trimStart.byteSize) =
      (front ++ line.leadingBlanks).byteSize := by
    have hsize := congrArg Text.byteSize hsplit
    rw [Text.byteSize_append] at hsize ⊢
    omega
  have hcontent : state.Follows source (front ++ line.leadingBlanks) (line.trimStart ++ rest) := by
    refine Follows.advance_append ?_
    rwa [← List.append_assoc, hsplit]
  rw [Outliner.readLine, hoffset]
  refine Follows.finishBodiless ?_ _
  have hsteps := hcontent.beginLine.steps
  rw [List.append_assoc, hsplit, Text.byteSize_append,
    ← steps_blanks _ _ _ (fun c hc => Text.isBlank_of_mem_leadingBlanks hc), hsplit] at hsteps
  rwa [Text.byteSize_append]

theorem Follows.readLines {lines : List Text} (h : state.Follows source front (lines.flatten ++ rest)) :
    (state.readLines (LineMap.ofText source) front.byteSize lines).Follows source
      (front ++ lines.flatten) rest := by
  induction lines generalizing front state with
  | nil =>
    rw [List.flatten_nil, List.append_nil]
    exact h
  | cons line lines ih =>
    rw [List.flatten_cons, List.append_assoc] at h
    have hlines := ih h.readLine
    rw [Text.byteSize_append, List.append_assoc] at hlines
    exact hlines

end Outliner

/-- The symbols of an outline are those of spans that follow each other. -/
theorem exists_spans (source : Text) :
    ∃ spans : List (TypeSpan source), outline source = spans.map TypeSpan.symbol ∧
      spans.Pairwise (fun a b => a.stop ≤ b.start) := by
  have hstart : Outliner.initial.Follows source [] (source.lines.flatten ++ []) := by
    rw [Text.flatten_lines, List.append_nil]
    exact Outliner.follows_initial source
  obtain ⟨spans, hsymbols, hordered, -, -⟩ := hstart.readLines.symbols
  exact ⟨spans, hsymbols, hordered⟩

end Lineage
