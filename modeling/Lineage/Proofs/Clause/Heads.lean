import Lineage.Proofs.Clause.References

set_option autoImplicit false

/-! # The scan of well-formed heads

A well-formed head announces a declaration with words, names it, lists its type parameters in an
angle group and its supertypes in at most one `extends` and one `implements` clause; then its text
ends, or a brace opens the body. What stands inside an angle group is not restricted: commas, braces,
arrows and the keywords themselves may occur there. The scan finds exactly the names of the two
lists, each at the size of the text in front of it (`scan_head`).

Each part of a head has one lemma of one form: the scan behind `front` passes the part and then
stands behind `front ++ part`, with the names that the part adds. Where a part ends with a word, the
lemma asks that no word goes on behind it. -/

namespace Lineage.SupertypeClauses

open Text

/-! ## The parts of a head -/

/-- A word that names something. -/
structure Identifier where
  first : Char
  more : Text
  isStart_first : isIdentifierStart first = true
  isPart_more : ∀ c ∈ more, isIdentifierPart c = true
  not_keyword : ∀ keyword : Keyword, first :: more ≠ keyword.letters

def Identifier.text (identifier : Identifier) : Text :=
  identifier.first :: identifier.more

/-- Blanks, or nothing. -/
structure Blanks where
  text : Text
  blank : ∀ c ∈ text, isBlank c = true

/-- At least one blank. -/
structure Gap extends Blanks where
  ne_nil : text ≠ []

/-- What a character standing after `before` adds to the depth of brackets. -/
def bracketShift (before : Option Char) (c : Char) : Int :=
  if c == '<' then 1 else if c == '>' && before != some '=' then -1 else 0

/-- How many brackets a text standing after `before` leaves open. -/
def bracketDepth (before : Option Char) : Text → Int
  | [] => 0
  | c :: rest => bracketShift before c + bracketDepth (some c) rest

/-- Brackets around any text: the last of them is closed at its end, and not earlier. -/
structure AngleGroup where
  text : Text
  opens : text.head? = some '<'
  open_within : ∀ n < text.length, 0 < n → 0 < bracketDepth none (text.take n)
  closes : bracketDepth none text = 0

/-- An angle group behind a name. -/
structure TypeArguments where
  blanks : Blanks
  group : AngleGroup

def TypeArguments.text (arguments : TypeArguments) : Text :=
  arguments.blanks.text ++ arguments.group.text

def argumentsText (arguments : Option TypeArguments) : Text :=
  arguments.elim [] TypeArguments.text

/-- A supertype as a clause names it: identifiers joined by dots, with or without arguments. -/
structure Supertype where
  first : Identifier
  segments : List Identifier
  arguments : Option TypeArguments

def segmentsText (segments : List Identifier) : Text :=
  segments.flatMap fun segment => '.' :: segment.text

def Supertype.text (supertype : Supertype) : Text :=
  supertype.first.text ++ (segmentsText supertype.segments ++ argumentsText supertype.arguments)

/-- One or more supertypes with commas between them, and blanks around the commas. -/
inductive Supertypes where
  | last (supertype : Supertype)
  | more (supertype : Supertype) (before after : Blanks) (rest : Supertypes)

namespace Supertypes

def text : Supertypes → Text
  | last supertype => supertype.text
  | more supertype before after rest =>
    supertype.text ++ (before.text ++ (',' :: (after.text ++ rest.text)))

/-- The offsets of the names in a list that stands behind `front`. -/
def offsets (front : Text) : Supertypes → List Nat
  | last _ => [front.byteSize]
  | more supertype before after rest =>
    front.byteSize :: rest.offsets (front ++ (supertype.text ++ (before.text ++ (',' :: after.text))))

/-- What stands behind the last name of a list. -/
def arguments : Supertypes → Option TypeArguments
  | last supertype => supertype.arguments
  | more _ _ _ rest => rest.arguments

end Supertypes

/-- A clause with the blanks in front of its keyword. -/
structure Clause where
  before : Blanks
  after : Gap
  supertypes : Supertypes

namespace Clause

/-- What stands in front of the list of a clause. -/
def opening (keyword : Keyword) (clause : Clause) : Text :=
  clause.before.text ++ (keyword.letters ++ clause.after.text)

def text (keyword : Keyword) (clause : Clause) : Text :=
  clause.opening keyword ++ clause.supertypes.text

/-- The offsets of the names in a clause that stands behind `front`. -/
def offsets (keyword : Keyword) (front : Text) (clause : Clause) : List Nat :=
  clause.supertypes.offsets (front ++ clause.opening keyword)

end Clause

def clauseText (keyword : Keyword) (clause : Option Clause) : Text :=
  clause.elim [] (Clause.text keyword)

/-- The head of a declaration, with what follows it in the declaration's text. A keyword stands
    behind a blank or behind the closing bracket of a group. -/
structure Head where
  indent : Blanks
  words : List (Identifier × Gap)
  name : Identifier
  parameters : Option TypeArguments
  extending : Option Clause
  implementing : Option Clause
  trail : Blanks
  body : Option Text
  extending_apart : ∀ clause ∈ extending, clause.before.text = [] → parameters.isSome
  implementing_apart : ∀ clause ∈ implementing, clause.before.text = [] →
    (extending.elim parameters fun clause => clause.supertypes.arguments).isSome

namespace Head

/-- The words of a head, up to its name. -/
def announcement (head : Head) : Text :=
  head.indent.text ++ head.words.flatMap fun (word, gap) => word.text ++ gap.text

/-- A head up to its `extends` clause. -/
def declared (head : Head) : Text :=
  head.announcement ++ (head.name.text ++ argumentsText head.parameters)

/-- A head up to its `implements` clause. -/
def extended (head : Head) : Text :=
  head.declared ++ clauseText .extending head.extending

/-- What stands behind the clauses of a head. -/
def ending (head : Head) : Text :=
  head.trail.text ++ head.body.elim [] ('{' :: ·)

def text (head : Head) : Text :=
  head.extended ++ (clauseText .implementing head.implementing ++ head.ending)

/-- The offsets of the names that a head extends. -/
def extendedNames (head : Head) : List Nat :=
  head.extending.elim [] (Clause.offsets .extending head.declared)

/-- The offsets of the names that a head implements. -/
def implementedNames (head : Head) : List Nat :=
  head.implementing.elim [] (Clause.offsets .implementing head.extended)

end Head

/-! ## Words behind which no word goes on -/

theorem Identifier.isPart (identifier : Identifier) :
    ∀ c ∈ identifier.text, isIdentifierPart c = true := by
  intro c hc
  rcases List.mem_cons.mp hc with rfl | hmem
  · exact isIdentifierPart_of_isIdentifierStart identifier.isStart_first
  · exact identifier.isPart_more c hmem

/-- Blanks are no part of a word. -/
theorem Blanks.word_append (blanks : Blanks) {rest : Text} (hrest : rest.word = []) :
    (blanks.text ++ rest).word = [] := by
  by_cases hne : blanks.text = []
  · rwa [hne]
  · exact @word_append_blanks [] blanks.text (by simp) hne blanks.blank rest

theorem AngleGroup.exists_cons (group : AngleGroup) : ∃ inner, group.text = '<' :: inner := by
  obtain ⟨inner, h⟩ := List.head?_eq_some_iff.mp group.opens
  exact ⟨inner, h⟩

/-- A group closes the word in front of it. -/
theorem word_argumentsText {arguments : Option TypeArguments} {rest : Text}
    (h : arguments.isSome = true ∨ rest.word = []) :
    Text.word (argumentsText arguments ++ rest) = [] := by
  cases arguments with
  | none => simpa [argumentsText] using h
  | some arguments =>
    obtain ⟨inner, hinner⟩ := arguments.group.exists_cons
    rw [argumentsText, Option.elim_some, TypeArguments.text, List.append_assoc]
    apply arguments.blanks.word_append
    rw [hinner]
    exact List.takeWhile_cons_of_neg (by decide)

/-- A clause goes on with no word, if it is set apart from what stands before it. -/
theorem word_clauseText {keyword : Keyword} {clause : Option Clause} {closed : Bool} {rest : Text}
    (hapart : ∀ c ∈ clause, c.before.text = [] → closed = true)
    (hrest : clause = none → closed = true ∨ rest.word = []) :
    closed = true ∨ Text.word (clauseText keyword clause ++ rest) = [] := by
  cases clause with
  | none => exact hrest rfl
  | some clause =>
    by_cases hne : clause.before.text = []
    · exact .inl (hapart clause rfl hne)
    · right
      simp only [clauseText, Option.elim_some, Clause.text, Clause.opening, List.append_assoc]
      exact @word_append_blanks [] _ (by simp) hne clause.before.blank _

theorem Head.word_ending (head : Head) : head.ending.word = [] := by
  apply head.trail.word_append
  cases head.body with
  | none => rfl
  | some body => exact List.takeWhile_cons_of_neg (by decide)

/-! ## Passing an angle group -/

section Passing

variable {front : Text} {clause : Option Keyword} {expecting : Bool} {found : SupertypeClauses}

/-- Inside of brackets, or where the first one opens, only the depth changes. -/
theorem run_bracket {depth : Int} {c : Char} (h : depth ≠ 0 ∨ c = '<') (rest : Text) :
    run (.behind front depth clause expecting found) (c :: rest) =
      run (.behind (front ++ [c]) (depth + bracketShift front.getLast? c) clause expecting found)
        rest := by
  have hends : (State.behind front depth clause expecting found).endsHead c = false := by
    rcases h with hdepth | rfl
    · simp [State.endsHead, State.behind, hdepth]
    · simp [State.endsHead]
  have hstep : (State.behind front depth clause expecting found).step c rest =
      .behind (front ++ [c]) (depth + bracketShift front.getLast? c) clause expecting found := by
    unfold State.step bracketShift
    by_cases hopen : c = '<'
    · simp [hopen, State.behind, byteSize_append]
    · by_cases hclose : c = '>' ∧ front.getLast? ≠ some '='
      · simp [hclose, State.behind, byteSize_append, Int.sub_eq_add_neg]
      · have hdepth : depth ≠ 0 := h.resolve_right hopen
        have hclose' : (c == '>' && front.getLast? != some '=') = false := by
          simpa using hclose
        simp [hopen, hclose', hdepth, State.behind, byteSize_append]
  rw [run, hends, hstep]
  rfl

/-- As long as a bracket is open, only the depth changes. -/
theorem run_brackets {depth : Int} {inner : Text} (rest : Text)
    (h : ∀ n < inner.length, 0 < depth + bracketDepth front.getLast? (inner.take n)) :
    run (.behind front depth clause expecting found) (inner ++ rest) =
      run (.behind (front ++ inner) (depth + bracketDepth front.getLast? inner) clause expecting
        found) rest := by
  induction inner generalizing front depth with
  | nil => simp [bracketDepth]
  | cons c inner ih =>
    have hdepth : 0 < depth := by simpa [bracketDepth] using h 0 (by simp)
    have hlater : ∀ n < inner.length, 0 < depth + bracketShift front.getLast? c +
        bracketDepth (front ++ [c]).getLast? (inner.take n) := by
      intro n hn
      have hnext := h (n + 1) (by simpa using hn)
      simpa [bracketDepth, Int.add_assoc] using hnext
    rw [List.cons_append, run_bracket (.inl (by omega)), ih hlater]
    simp [bracketDepth, Int.add_assoc]

/-- An angle group is passed whole, whatever stands in it. -/
theorem run_group (group : AngleGroup) (rest : Text) :
    run (.behind front 0 clause expecting found) (group.text ++ rest) =
      run (.behind (front ++ group.text) 0 clause expecting found) rest := by
  obtain ⟨inner, hinner⟩ := group.exists_cons
  have hshift : ∀ before, bracketShift before '<' = 1 := fun _ => rfl
  have hwithin : ∀ n < inner.length,
      0 < 0 + bracketShift front.getLast? '<' +
        bracketDepth (front ++ ['<']).getLast? (inner.take n) := by
    intro n hn
    have hpositive := group.open_within (n + 1) (by simp [hinner, hn]) (by omega)
    simpa [hinner, bracketDepth, hshift] using hpositive
  have hclosed : 0 + bracketShift front.getLast? '<' +
      bracketDepth (front ++ ['<']).getLast? inner = 0 := by
    have hcloses := group.closes
    simpa [hinner, bracketDepth, hshift] using hcloses
  rw [hinner, List.cons_append, run_bracket (.inr rfl), run_brackets rest hwithin, hclosed,
    List.append_assoc, List.singleton_append]

theorem bracketDepth_concat (before : Option Char) (t : Text) (c : Char) :
    ∃ last, bracketDepth before (t ++ [c]) = bracketDepth before t + bracketShift last c := by
  induction t generalizing before with
  | nil => exact ⟨before, by simp [bracketDepth]⟩
  | cons c' t ih =>
    obtain ⟨last, hlast⟩ := ih (some c')
    refine ⟨last, ?_⟩
    rw [List.cons_append, bracketDepth, bracketDepth, hlast, Int.add_assoc]

/-- A group ends with a closing bracket. -/
theorem AngleGroup.getLast? (group : AngleGroup) : group.text.getLast? = some '>' := by
  obtain ⟨inner, hinner⟩ := group.exists_cons
  rcases List.eq_nil_or_concat inner with rfl | ⟨inner, c, rfl⟩
  · -- a bracket alone is not closed
    have hcloses := group.closes
    rw [hinner] at hcloses
    exact absurd hcloses (by decide)
  · have hsplit : group.text = ('<' :: inner) ++ [c] := by simp [hinner]
    have hpositive : 0 < bracketDepth none ('<' :: inner) := by
      have h := group.open_within (inner.length + 1) (by simp [hsplit]) (by omega)
      simpa [hsplit] using h
    obtain ⟨last, hlast⟩ := bracketDepth_concat none ('<' :: inner) c
    have hcloses := group.closes
    rw [hsplit, hlast] at hcloses
    have hc : c = '>' := by
      unfold bracketShift at hcloses
      grind
    rw [hsplit, hc, List.getLast?_concat]

/-! ## Passing names -/

theorem run_arguments (arguments : Option TypeArguments) (rest : Text) :
    run (.behind front 0 clause expecting found) (argumentsText arguments ++ rest) =
      run (.behind (front ++ argumentsText arguments) 0 clause expecting found) rest := by
  cases arguments with
  | none => simp [argumentsText]
  | some arguments =>
    simp only [argumentsText, Option.elim_some, TypeArguments.text, List.append_assoc]
    rw [run_blanks _ arguments.blanks.blank, run_group, List.append_assoc]

/-- Where no name is expected, an identifier is passed like any other word. -/
theorem run_identifier (identifier : Identifier) {rest : Text} (hrest : rest.word = []) :
    run (.behind front 0 clause false found) (identifier.text ++ rest) =
      run (.behind (front ++ identifier.text) 0 clause false found) rest :=
  run_word identifier.isPart identifier.not_keyword hrest

/-- Where a name is expected, an identifier is one. -/
theorem run_expected (identifier : Identifier) {rest : Text} (hrest : rest.word = []) :
    run (.behind front 0 clause true found) (identifier.text ++ rest) =
      run (.behind (front ++ identifier.text) 0 clause false
        (addName found front.byteSize clause)) rest := by
  obtain ⟨first, more, hfirst, hmore, hkeyword⟩ := identifier
  have hpart := isIdentifierPart_of_isIdentifierStart hfirst
  have hword : ∀ c ∈ first :: more, isIdentifierPart c = true := by
    simpa [hpart] using hmore
  have hopening : opening? front.getLast? (first :: (more ++ rest)) = none := by
    refine opening?_eq_none _ ?_
    rw [← List.cons_append, word_append hword hrest]
    exact hkeyword
  have hends : (State.behind front 0 clause true found).endsHead first = false := by
    simp [State.endsHead, ne_of_isIdentifierPart hpart]
  have hstep : (State.behind front 0 clause true found).step first (more ++ rest) =
      .behind (front ++ [first]) 0 clause false (addName found front.byteSize clause) := by
    simp [State.step, ne_of_isIdentifierPart hpart, State.stepOutside, hopening, hfirst,
      State.behind, byteSize_append]
  show run _ (first :: (more ++ rest)) = _
  rw [run, hends, hstep]
  -- the rest of the word has its first character in front of it
  have hbefore : (front ++ [first]).getLast?.any isIdentifierPart = true := by simpa using hpart
  have hlater := @run_word_rest (front ++ [first]) clause (addName found front.byteSize clause)
    more rest hbefore hmore
  simpa [Identifier.text] using hlater

theorem word_segmentsText (segments : List Identifier) {rest : Text} (hrest : rest.word = []) :
    Text.word (segmentsText segments ++ rest) = [] := by
  cases segments with
  | nil => exact hrest
  | cons segment segments => exact List.takeWhile_cons_of_neg (by decide)

/-- The segments behind the first one of a name are no names of their own. -/
theorem run_segments (segments : List Identifier) {rest : Text} (hrest : rest.word = []) :
    run (.behind front 0 clause false found) (segmentsText segments ++ rest) =
      run (.behind (front ++ segmentsText segments) 0 clause false found) rest := by
  induction segments generalizing front with
  | nil => simp [segmentsText]
  | cons segment segments ih =>
    have hsplit : segmentsText (segment :: segments) =
        '.' :: (segment.text ++ segmentsText segments) := by
      simp [segmentsText]
    have hdot : Text.word ('.' :: (segment.text ++ (segmentsText segments ++ rest))) = [] :=
      List.takeWhile_cons_of_neg (by decide)
    rw [hsplit, List.cons_append, List.append_assoc,
      run_behind_cons (by decide) (opening?_of_word_eq_nil _ hdot) rfl,
      run_identifier segment (word_segmentsText segments hrest), ih]
    simp

/-- An expected supertype is found where its name starts. -/
theorem run_supertype (supertype : Supertype) {rest : Text}
    (hrest : supertype.arguments.isSome = true ∨ rest.word = []) :
    run (.behind front 0 clause true found) (supertype.text ++ rest) =
      run (.behind (front ++ supertype.text) 0 clause false
        (addName found front.byteSize clause)) rest := by
  have harguments := word_argumentsText hrest
  rw [Supertype.text, List.append_assoc, List.append_assoc,
    run_expected _ (word_segmentsText _ harguments), run_segments _ harguments, run_arguments]
  simp

/-- A comma within a clause lets the next name be expected. -/
theorem run_comma (keyword : Keyword) (rest : Text) :
    run (.behind front 0 (some keyword) false found) (',' :: rest) =
      run (.behind (front ++ [',']) 0 (some keyword) true found) rest := by
  have hends : (State.behind front 0 (some keyword) false found).endsHead ',' = false := by
    simp [State.endsHead]
  rw [run, hends]
  simp [State.step, State.stepOutside, State.behind, byteSize_append]

/-- Every name of a list is found, and nothing else in it. -/
theorem run_supertypes (keyword : Keyword) (supertypes : Supertypes) {rest : Text}
    (hrest : supertypes.arguments.isSome = true ∨ rest.word = []) :
    run (.behind front 0 (some keyword) true found) (supertypes.text ++ rest) =
      run (.behind (front ++ supertypes.text) 0 (some keyword) false
        ((supertypes.offsets front).foldl (addName · · (some keyword)) found)) rest := by
  induction supertypes generalizing front found with
  | last supertype => exact run_supertype supertype hrest
  | more supertype before after others ih =>
    have hcomma : (before.text ++ (',' :: (after.text ++ (others.text ++ rest)))).word = [] :=
      before.word_append (List.takeWhile_cons_of_neg (by decide))
    simp only [Supertypes.text, Supertypes.offsets, List.append_assoc, List.cons_append]
    rw [run_supertype supertype (.inr hcomma), run_blanks _ before.blank, run_comma,
      run_blanks _ after.blank, ih hrest]
    simp

/-! ## Passing a clause -/

/-- The characters of an opening are passed unseen. -/
theorem run_skip (t rest : Text) :
    run { State.behind front 0 clause expecting found with skip := t.length } (t ++ rest) =
      run (.behind (front ++ t) 0 clause expecting found) rest := by
  induction t generalizing front with
  | nil => rw [List.append_nil]; rfl
  | cons c t ih =>
    have hstep : State.step
          { State.behind front 0 clause expecting found with skip := (c :: t).length } c (t ++ rest) =
        { State.behind (front ++ [c]) 0 clause expecting found with skip := t.length } := by
      simp [State.step, State.behind, byteSize_append]
    rw [List.cons_append, run, hstep, ih]
    simp [State.endsHead]

theorem Keyword.blanksAfter?_letters (keyword : Keyword) {blanks rest : Text} (hne : blanks ≠ [])
    (hblanks : ∀ c ∈ blanks, isBlank c = true) (hrest : rest.leadingBlanks = []) :
    keyword.blanksAfter? (keyword.letters ++ (blanks ++ rest)) = some blanks := by
  have hleading : leadingBlanks (blanks ++ rest) = blanks := by
    rw [leadingBlanks, List.takeWhile_append_of_pos hblanks, ← leadingBlanks, hrest,
      List.append_nil]
  have hprefix : keyword.letters.isPrefixOf (keyword.letters ++ (blanks ++ rest)) = true := by
    simp
  rw [Keyword.blanksAfter?, if_pos hprefix, List.drop_left, hleading]
  split
  · exact absurd rfl hne
  · rfl

/-- A keyword with blanks behind it opens its clause where no word goes on. -/
theorem opening?_letters (keyword : Keyword) {before : Option Char} {blanks rest : Text}
    (hbefore : before.any isIdentifierPart = false) (hne : blanks ≠ [])
    (hblanks : ∀ c ∈ blanks, isBlank c = true) (hrest : rest.leadingBlanks = []) :
    opening? before (keyword.letters ++ (blanks ++ rest)) =
      some (keyword, keyword.letters ++ blanks) := by
  have hafter := keyword.blanksAfter?_letters hne hblanks hrest
  rw [opening?, hbefore, if_neg Bool.false_ne_true]
  cases keyword with
  | extending => rw [hafter]
  | implementing =>
    have hother : Keyword.extending.blanksAfter?
        (Keyword.implementing.letters ++ (blanks ++ rest)) = none := by
      simp [Keyword.blanksAfter?, Keyword.letters]
    rw [hother, hafter]
    rfl

/-- The references once a clause has opened in front of `after`. -/
def openedAt (after : Nat) (found : SupertypeClauses) : Keyword → SupertypeClauses
  | .extending => { found with extended := found.extended.or (some after) }
  | .implementing => found

/-- From a keyword on, names are expected in its clause. -/
theorem run_keyword (keyword : Keyword) (gap : Gap) {rest : Text}
    (hbefore : front.getLast?.any isIdentifierPart = false) (hrest : rest.leadingBlanks = []) :
    run (.behind front 0 clause expecting found) (keyword.letters ++ (gap.text ++ rest)) =
      run (.behind (front ++ (keyword.letters ++ gap.text)) 0 (some keyword) true
        (openedAt (front ++ (keyword.letters ++ gap.text)).byteSize found keyword)) rest := by
  have hopening := opening?_letters keyword hbefore gap.ne_nil gap.blank hrest
  obtain ⟨c, letters, hletters⟩ : ∃ c letters, keyword.letters = c :: letters := by
    cases keyword <;> exact ⟨_, _, rfl⟩
  have hc := ne_of_isIdentifierPart
    (keyword.isIdentifierPart_of_mem_letters (hletters ▸ List.mem_cons_self))
  have hends : (State.behind front 0 clause expecting found).endsHead c = false := by
    simp [State.endsHead, hc]
  have hstep : (State.behind front 0 clause expecting found).step c (letters ++ (gap.text ++ rest)) =
      { State.behind (front ++ [c]) 0 (some keyword) true
          (openedAt (front ++ (keyword.letters ++ gap.text)).byteSize found keyword) with
        skip := (letters ++ gap.text).length } := by
    rw [hletters] at hopening
    simp only [List.cons_append] at hopening
    unfold State.step
    cases keyword <;>
      simp [hc, State.stepOutside, hopening, State.behind, openedAt, hletters, byteSize_append]
  rw [hletters, List.cons_append, run, hends, hstep]
  have hskip := @run_skip (front ++ [c]) (some keyword) true
    (openedAt (front ++ (keyword.letters ++ gap.text)).byteSize found keyword)
    (letters ++ gap.text) rest
  simpa [hletters] using hskip

/-- The references with the names at `offsets` in the clause of `keyword`. -/
def addNames (found : SupertypeClauses) (offsets : List Nat) : Keyword → SupertypeClauses
  | .extending => { found with extendedNames := found.extendedNames ++ offsets }
  | .implementing => { found with implementedNames := found.implementedNames ++ offsets }

theorem foldl_addName (keyword : Keyword) (offsets : List Nat) :
    offsets.foldl (addName · · (some keyword)) found = addNames found offsets keyword := by
  induction offsets generalizing found with
  | nil => cases keyword <;> simp [addNames]
  | cons offset offsets ih =>
    rw [List.foldl_cons, ih]
    cases keyword <;> simp [addNames, addName]

/-- The references with those of a clause that stands behind `front`, if there is one. -/
def addClause (found : SupertypeClauses) (keyword : Keyword) (front : Text)
    (clause : Option Clause) : SupertypeClauses :=
  clause.elim found fun clause =>
    addNames (openedAt (front ++ clause.opening keyword).byteSize found keyword)
      (clause.offsets keyword front) keyword

theorem Supertypes.leadingBlanks_text (supertypes : Supertypes) (rest : Text) :
    leadingBlanks (supertypes.text ++ rest) = [] := by
  have hfirst : ∀ (identifier : Identifier) (t : Text),
      leadingBlanks (identifier.text ++ t) = [] := fun identifier t => by
    refine List.takeWhile_cons_of_neg fun hblank => ?_
    exact not_isIdentifierPart_of_isBlank hblank
      (isIdentifierPart_of_isIdentifierStart identifier.isStart_first)
  cases supertypes with
  | last supertype => simp [Supertypes.text, Supertype.text, hfirst]
  | more supertype => simp [Supertypes.text, Supertype.text, hfirst]

/-- Blanks and the closing bracket of a group are no identifier characters. -/
theorem getLast?_apart {blanks : Blanks} {arguments : Option TypeArguments}
    (h : blanks.text = [] → arguments.isSome = true) :
    (front ++ argumentsText arguments ++ blanks.text).getLast?.any isIdentifierPart = false := by
  by_cases hne : blanks.text = []
  · obtain ⟨arguments, rfl⟩ := Option.isSome_iff_exists.mp (h hne)
    have hlast : (argumentsText (some arguments)).getLast? = some '>' := by
      rw [argumentsText, Option.elim_some, TypeArguments.text, List.getLast?_append,
        arguments.group.getLast?]
      rfl
    rw [hne, List.append_nil, List.getLast?_append, hlast, Option.some_or]
    decide
  · rw [List.getLast?_append, List.getLast?_eq_some_getLast hne, Option.some_or, Option.any_some]
    exact Bool.eq_false_iff.mpr
      (not_isIdentifierPart_of_isBlank (blanks.blank _ (List.getLast_mem hne)))

/-- A clause is passed with its names found, if it is set apart from what stands before it. -/
theorem run_clause (keyword : Keyword) (part : Option Clause) {rest : Text}
    (hapart : ∀ c ∈ part, (front ++ c.before.text).getLast?.any isIdentifierPart = false)
    (hrest : ∀ c ∈ part, c.supertypes.arguments.isSome = true ∨ rest.word = []) :
    ∃ clause', run (.behind front 0 clause false found) (clauseText keyword part ++ rest) =
      run (.behind (front ++ clauseText keyword part) 0 clause' false
        (addClause found keyword front part)) rest := by
  cases part with
  | none => exact ⟨clause, by simp [clauseText, addClause]⟩
  | some part =>
    refine ⟨some keyword, ?_⟩
    simp only [clauseText, Option.elim_some, Clause.text, Clause.opening, List.append_assoc]
    rw [run_blanks _ part.before.blank,
      run_keyword keyword part.after (hapart part rfl) (part.supertypes.leadingBlanks_text rest),
      run_supertypes keyword part.supertypes (hrest part rfl), foldl_addName]
    simp [addClause, Clause.offsets, Clause.opening]

end Passing

/-! ## Whole heads -/

theorem announcement_words (words : List (Identifier × Gap)) :
    Announcement (words.flatMap fun (word, gap) => word.text ++ gap.text) := by
  induction words with
  | nil => exact .nil
  | cons first words ih =>
    obtain ⟨word, gap⟩ := first
    rw [List.flatMap_cons, List.append_assoc]
    exact .word word.isPart word.not_keyword gap.ne_nil gap.blank ih

/-- A list ends with what stands behind its last name. -/
theorem Supertypes.exists_text (supertypes : Supertypes) :
    ∃ names, supertypes.text = names ++ argumentsText supertypes.arguments := by
  induction supertypes with
  | last supertype =>
    exact ⟨supertype.first.text ++ segmentsText supertype.segments,
      by simp [text, Supertype.text, arguments]⟩
  | more supertype before after rest ih =>
    obtain ⟨names, hnames⟩ := ih
    refine ⟨supertype.text ++ (before.text ++ (',' :: (after.text ++ names))), ?_⟩
    simp [text, arguments, hnames]

namespace Head

variable (head : Head)

/-- What stands in front of the `implements` clause, or would stand there. -/
def argumentsBefore : Option TypeArguments :=
  head.extending.elim head.parameters fun clause => clause.supertypes.arguments

theorem word_behind_extended : head.argumentsBefore.isSome = true ∨
    Text.word (clauseText .implementing head.implementing ++ head.ending) = [] :=
  word_clauseText head.implementing_apart fun _ => .inr head.word_ending

theorem word_behind_declared : head.parameters.isSome = true ∨
    Text.word (clauseText .extending head.extending ++
      (clauseText .implementing head.implementing ++ head.ending)) = [] := by
  refine word_clauseText head.extending_apart fun hnone => ?_
  simpa [argumentsBefore, hnone] using head.word_behind_extended

theorem exists_extended :
    ∃ names, head.extended = names ++ argumentsText head.argumentsBefore := by
  cases hextending : head.extending with
  | none =>
    refine ⟨head.announcement ++ head.name.text, ?_⟩
    simp [extended, declared, argumentsBefore, hextending, clauseText]
  | some clause =>
    obtain ⟨names, hnames⟩ := clause.supertypes.exists_text
    refine ⟨head.declared ++ (clause.opening .extending ++ names), ?_⟩
    simp [extended, argumentsBefore, hextending, clauseText, Clause.text, hnames]

/-- No word goes on into the keyword of a clause. -/
theorem apart_extending : ∀ clause ∈ head.extending,
    (head.declared ++ clause.before.text).getLast?.any isIdentifierPart = false := by
  intro clause hclause
  rw [declared, ← List.append_assoc head.announcement]
  exact getLast?_apart (head.extending_apart clause hclause)

theorem apart_implementing : ∀ clause ∈ head.implementing,
    (head.extended ++ clause.before.text).getLast?.any isIdentifierPart = false := by
  intro clause hclause
  obtain ⟨names, hnames⟩ := head.exists_extended
  rw [hnames]
  exact getLast?_apart (head.implementing_apart clause hclause)

/-- Up to the name of a declaration and its parameters the scan finds nothing. -/
theorem run_declared {rest : Text} (hrest : head.parameters.isSome = true ∨ rest.word = []) :
    scan (head.declared ++ rest) = run (.behind head.declared 0 none false .empty) rest := by
  show run (.behind [] 0 none false .empty) _ = _
  simp only [declared, announcement, List.append_assoc]
  rw [run_blanks _ head.indent.blank, run_announcement (announcement_words head.words),
    run_identifier head.name (word_argumentsText hrest), run_arguments]
  simp

/-- Behind the clauses nothing more is found. -/
theorem run_ending {front : Text} {clause : Option Keyword} {found : SupertypeClauses} :
    run (.behind front 0 clause false found) head.ending = found := by
  rw [ending, run_blanks _ head.trail.blank]
  cases head.body with
  | none => rfl
  | some body => simp [run, State.endsHead, State.behind]

end Head

theorem Supertypes.head?_offsets (supertypes : Supertypes) (front : Text) :
    (supertypes.offsets front).head? = some front.byteSize := by
  cases supertypes <;> rfl

theorem addClause_extending (front : Text) (clause : Option Clause) :
    addClause .empty .extending front clause =
      { extended := (clause.elim [] (Clause.offsets .extending front)).head?
        extendedNames := clause.elim [] (Clause.offsets .extending front)
        implementedNames := [] } := by
  cases clause with
  | none => rfl
  | some clause =>
    simp [addClause, addNames, openedAt, empty, Clause.offsets, Supertypes.head?_offsets]

theorem addClause_implementing (found : SupertypeClauses) (front : Text) (clause : Option Clause) :
    addClause found .implementing front clause =
      { found with
        implementedNames :=
          found.implementedNames ++ clause.elim [] (Clause.offsets .implementing front) } := by
  cases clause with
  | none => simp [addClause]
  | some clause => simp [addClause, addNames, openedAt]

/-- The scan of a well-formed head finds the names of its two lists and nothing else, and its
    `extends` clause leads to the first name that the head extends. -/
theorem scan_head (head : Head) :
    scan head.text =
      { extended := head.extendedNames.head?
        extendedNames := head.extendedNames
        implementedNames := head.implementedNames } := by
  have hextended : ∀ clause ∈ head.extending, clause.supertypes.arguments.isSome = true ∨
      Text.word (clauseText .implementing head.implementing ++ head.ending) = [] := by
    intro clause hclause
    have hsome : head.extending = some clause := hclause
    simpa [Head.argumentsBefore, hsome] using head.word_behind_extended
  obtain ⟨clause, hextending⟩ := @run_clause head.declared none .empty .extending head.extending
    _ head.apart_extending hextended
  obtain ⟨clause', himplementing⟩ := @run_clause head.extended clause
    (addClause .empty .extending head.declared head.extending) .implementing head.implementing
    _ head.apart_implementing fun _ _ => .inr head.word_ending
  have htext : head.text = head.declared ++ (clauseText .extending head.extending ++
      (clauseText .implementing head.implementing ++ head.ending)) := by
    simp [Head.text, Head.extended]
  rw [htext, head.run_declared head.word_behind_declared, hextending, ← Head.extended,
    himplementing, head.run_ending, addClause_extending, addClause_implementing]
  rfl

def noBlanks : Blanks := ⟨[], nofun⟩

def oneSpace : Gap := ⟨⟨[' '], List.all_eq_true.mp (by decide)⟩, by decide⟩

/-- A head whose groups hold a keyword, an arrow, a comma and braces. -/
def sampleHead : Head where
  indent := noBlanks
  words := [(⟨'c', "lass".toList, by decide, List.all_eq_true.mp (by decide),
    by rintro (_ | _) <;> decide⟩, oneSpace)]
  name := ⟨'A', [], by decide, nofun, by rintro (_ | _) <;> decide⟩
  parameters := some ⟨noBlanks,
    ⟨"<T extends \x7b\x7d>".toList, by decide, by decide, by decide⟩⟩
  extending := some ⟨noBlanks, oneSpace,
    .more ⟨⟨'b', [], by decide, nofun, by rintro (_ | _) <;> decide⟩,
        [⟨'C', [], by decide, nofun, by rintro (_ | _) <;> decide⟩],
        some ⟨oneSpace.toBlanks,
          ⟨"<() => D, \x7b\x7d>".toList, by decide, by decide, by decide⟩⟩⟩
      noBlanks oneSpace.toBlanks
      (.last ⟨⟨'É', [], by decide, nofun, by rintro (_ | _) <;> decide⟩, [], none⟩)⟩
  implementing := some ⟨oneSpace.toBlanks, oneSpace,
    .last ⟨⟨'F', [], by decide, nofun, by rintro (_ | _) <;> decide⟩, [], none⟩⟩
  trail := oneSpace.toBlanks
  body := some ['}']
  extending_apart := by decide
  implementing_apart := by decide

example : sampleHead.text =
    "class A<T extends \x7b\x7d>extends b.C <() => D, \x7b\x7d>, É implements F \x7b\x7d".toList := by
  decide

example : scan sampleHead.text = ⟨some 29, [29, 48], [62]⟩ := by decide

end Lineage.SupertypeClauses
