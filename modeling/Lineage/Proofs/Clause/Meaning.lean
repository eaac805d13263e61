import Lineage.Proofs.Clause.Occurrences

set_option autoImplicit false

/-! # What the scan of any text finds

The scan reads a text once, with a clause, an expectation and a number of letters to skip in its
state. What it finds is what the text says index by index, be it well formed or not
(`scan_finds_occurrences`).

The proof follows the scan with one invariant (`State.Reads`): each field of the state in front of an
index is what the text up to that index says. `Governed` is its part about clauses, `FoundBefore` its
part about what was found. Only an opening looks ahead of the index, and so it is told from the
whole text. -/

namespace Lineage.SupertypeClauses

open Text

/-! ## The clause that the scan is in -/

section Clauses

variable {t : Text} {index stop : Nat} {c : Char} {keyword : Keyword} {clause : Option Keyword}
  {skip : Nat} {expecting : Bool} {found : SupertypeClauses}

/-- What the scan knows in front of an index about clauses: the one opened last, how much of its opening
    is left, and whether a name is awaited. -/
def Governed (t : Text) (index : Nat) (clause : Option Keyword) (skip : Nat) (expecting : Bool) :
    Prop :=
  match clause with
  | none => skip = 0 ∧ expecting = false ∧
      ∀ keyword start stop, Opens t keyword start stop → index ≤ start
  | some keyword => ∃ start stop, Governs t keyword start stop index ∧ skip = stop - index ∧
      (expecting = true ↔ ∃ since, Awaits t stop index since)

/-- Past a character that opens no clause and, outside of openings, is no comma and no start of a name
    that is awaited. -/
theorem Governed.pass (h : Governed t index clause skip expecting)
    (hopen : ∀ keyword stop, ¬ Opens t keyword index stop)
    (hcomma : skip = 0 → clause.isSome = true → ¬ CommaAt t index)
    (hstart : skip = 0 → expecting = true → ¬ StartsAt t index) :
    Governed t (index + 1) clause (skip - 1) expecting := by
  cases clause with
  | none =>
    obtain ⟨rfl, rfl, hnone⟩ := h
    refine ⟨rfl, rfl, ?_⟩
    intro keyword start stop hopens
    exact hopens.lt_of_le (hopen keyword) (hnone keyword start stop hopens)
  | some keyword =>
    obtain ⟨start, stop, hgoverns, rfl, hexpecting⟩ := h
    refine ⟨start, stop, hgoverns.succ hopen, by omega, ?_⟩
    by_cases hstop : stop ≤ index
    · have hskip : stop - index = 0 := by omega
      rw [exists_awaits_succ_iff hstop (hcomma hskip rfl), ← hexpecting]
      exact ⟨fun htrue => ⟨htrue, hstart hskip htrue⟩, And.left⟩
    · -- up to the end of the opening a name is awaited in any case
      exact iff_of_true (hexpecting.mpr ⟨stop, awaits_stop (by omega)⟩)
        ⟨stop, awaits_stop (by omega)⟩

/-- Past a comma in a clause. -/
theorem Governed.comma (h : Governed t index (some keyword) 0 expecting)
    (hopen : ∀ keyword stop, ¬ Opens t keyword index stop) (hcomma : CommaAt t index) :
    Governed t (index + 1) (some keyword) 0 true := by
  obtain ⟨start, stop, hgoverns, hskip, -⟩ := h
  refine ⟨start, stop, hgoverns.succ hopen, by omega, ?_⟩
  exact iff_of_true rfl ⟨index + 1, hcomma.awaits (by omega)⟩

/-- Past the start of a name. -/
theorem Governed.name (h : Governed t index (some keyword) 0 expecting)
    (hopen : ∀ keyword stop, ¬ Opens t keyword index stop) (hcomma : ¬ CommaAt t index)
    (hstart : StartsAt t index) : Governed t (index + 1) (some keyword) 0 false := by
  obtain ⟨start, stop, hgoverns, hskip, -⟩ := h
  refine ⟨start, stop, hgoverns.succ hopen, by omega, ?_⟩
  rw [exists_awaits_succ_iff (by omega) hcomma]
  simp [hstart]

/-- Behind the first letter of an opening. -/
theorem Opens.governed (h : Opens t keyword index stop) :
    Governed t (index + 1) (some keyword) (stop - (index + 1)) true := by
  have := h.start_lt_stop
  exact ⟨index, stop, h.governs, rfl, iff_of_true rfl ⟨stop, awaits_stop (by omega)⟩⟩

/-- The names are those that the scan awaits. -/
theorem Governed.names_iff (h : Governed t index clause skip expecting) :
    Names t keyword index ↔ clause = some keyword ∧ skip = 0 ∧ expecting = true ∧
      StartsAt t index ∧ ∀ keyword' stop, ¬ Opens t keyword' index stop := by
  cases clause with
  | none =>
    refine ⟨?_, fun hnames => nomatch hnames.1⟩
    intro hnames
    obtain ⟨start, stop, since, hgoverns, -⟩ := hnames.awaited
    have := h.2.2 keyword start stop hgoverns.opens
    exact absurd hgoverns.before (Nat.not_lt.mpr this)
  | some keyword' =>
    obtain ⟨start, stop, hgoverns, rfl, hexpecting⟩ := h
    constructor
    · intro hnames
      obtain ⟨start', stop', since, hgoverns', hle, hawaits⟩ := hnames.awaited
      obtain ⟨rfl, rfl⟩ := hgoverns.unique hgoverns'
      exact ⟨rfl, by omega, hexpecting.mpr ⟨since, hawaits⟩, hnames.starts, hnames.no_opening⟩
    · rintro ⟨heq, hskip, hawaited, hstarts, hopen⟩
      obtain rfl := Option.some.inj heq
      obtain ⟨since, hawaits⟩ := hexpecting.mp hawaited
      exact ⟨hstarts, hopen, start, stop, since, hgoverns, by omega, hawaits⟩

/-! ## What the scan has found -/

/-- The references found in front of an index. -/
structure FoundBefore (t : Text) (index : Nat) (found : SupertypeClauses) : Prop where
  extended : ∀ offset ∈ found.extended, ∃ start stop, start < index ∧
    OpensFirst t .extending start stop ∧ byteSize (t.take stop) = offset
  unextended : found.extended = none → ∀ start stop, Opens t .extending start stop → index ≤ start
  names : ∀ keyword offset, offset ∈ found.names keyword ↔
    ∃ earlier < index, Names t keyword earlier ∧ byteSize (t.take earlier) = offset
  sorted : ∀ keyword, (found.names keyword).Pairwise (· < ·)

theorem names_openedAt (after : Nat) (found : SupertypeClauses) (keyword keyword' : Keyword) :
    (openedAt after found keyword).names keyword' = found.names keyword' := by
  cases keyword <;> rfl

theorem names_addName (found : SupertypeClauses) (offset : Nat) (keyword keyword' : Keyword) :
    (addName found offset (some keyword)).names keyword' =
      if keyword' = keyword then found.names keyword' ++ [offset] else found.names keyword' := by
  cases keyword <;> cases keyword' <;> rfl

theorem extended_addName (found : SupertypeClauses) (offset : Nat) (clause : Option Keyword) :
    (addName found offset clause).extended = found.extended := by
  rcases clause with _ | _ | _ <;> rfl

/-- The names in front of the next index, where none is named at this one. -/
theorem exists_names_succ_iff {offset : Nat} (hname : ¬ Names t keyword index) :
    (∃ earlier < index + 1, Names t keyword earlier ∧ byteSize (t.take earlier) = offset) ↔
      ∃ earlier < index, Names t keyword earlier ∧ byteSize (t.take earlier) = offset := by
  rw [Nat.exists_lt_succ_right]
  simp [hname]

/-- What was found of `extends` clauses stays found. -/
theorem FoundBefore.extended_succ (h : FoundBefore t index found) :
    ∀ offset ∈ found.extended, ∃ start stop, start < index + 1 ∧
      OpensFirst t .extending start stop ∧ byteSize (t.take stop) = offset := by
  intro offset hoffset
  obtain ⟨start, stop, hlt, hfirst⟩ := h.extended offset hoffset
  exact ⟨start, stop, Nat.lt_succ_of_lt hlt, hfirst⟩

/-- Where no `extends` clause opens, none is missed. -/
theorem FoundBefore.unextended_succ (h : FoundBefore t index found)
    (hopen : ∀ stop, ¬ Opens t .extending index stop) (hnone : found.extended = none) :
    ∀ start stop, Opens t .extending start stop → index + 1 ≤ start := by
  intro start stop hopens
  exact hopens.lt_of_le hopen (h.unextended hnone start stop hopens)

theorem FoundBefore.pass (h : FoundBefore t index found)
    (hopen : ∀ keyword stop, ¬ Opens t keyword index stop)
    (hname : ∀ keyword, ¬ Names t keyword index) : FoundBefore t (index + 1) found := by
  refine ⟨h.extended_succ, h.unextended_succ (hopen .extending), ?_, h.sorted⟩
  intro keyword offset
  rw [exists_names_succ_iff (hname keyword), h.names]

/-- The first `extends` clause is found where it opens. -/
theorem FoundBefore.opened (h : FoundBefore t index found) (hopens : Opens t keyword index stop) :
    FoundBefore t (index + 1) (openedAt (byteSize (t.take stop)) found keyword) := by
  have hnames : ∀ keyword' offset,
      offset ∈ (openedAt (byteSize (t.take stop)) found keyword).names keyword' ↔
        ∃ earlier < index + 1, Names t keyword' earlier ∧ byteSize (t.take earlier) = offset := by
    intro keyword' offset
    rw [names_openedAt, h.names,
      exists_names_succ_iff fun hnames => hnames.no_opening keyword stop hopens]
  have hsorted : ∀ keyword',
      ((openedAt (byteSize (t.take stop)) found keyword).names keyword').Pairwise (· < ·) := by
    intro keyword'
    rw [names_openedAt]
    exact h.sorted keyword'
  cases keyword with
  | implementing =>
    refine ⟨h.extended_succ, h.unextended_succ ?_, hnames, hsorted⟩
    intro stop' hopens'
    exact nomatch (hopens.unique hopens').1
  | extending =>
    refine ⟨?_, fun hnone => ?_, hnames, hsorted⟩
    · intro offset hoffset
      -- an earlier `extends` is kept, and without one this is the first
      cases hextended : found.extended with
      | some first =>
        refine h.extended_succ offset ?_
        simpa [openedAt, hextended] using hoffset
      | none =>
        refine ⟨index, stop, Nat.lt_succ_self _, ⟨hopens, h.unextended hextended⟩, ?_⟩
        simpa [openedAt, hextended] using hoffset
    · simp [openedAt] at hnone

/-- A name is found where it stands, behind all found before it. -/
theorem FoundBefore.named (h : FoundBefore t index found)
    (hopen : ∀ keyword stop, ¬ Opens t keyword index stop)
    (hname : ∀ keyword', Names t keyword' index ↔ keyword' = keyword) :
    FoundBefore t (index + 1) (addName found (byteSize (t.take index)) (some keyword)) := by
  refine ⟨?_, ?_, ?_, ?_⟩
  · rw [extended_addName]
    exact h.extended_succ
  · rw [extended_addName]
    exact h.unextended_succ (hopen .extending)
  · intro keyword' offset
    rw [names_addName]
    by_cases heq : keyword' = keyword
    · rw [if_pos heq, Nat.exists_lt_succ_right, List.mem_append, h.names, List.mem_singleton,
        hname keyword']
      simp [heq, eq_comm]
    · rw [if_neg heq, exists_names_succ_iff (mt (hname keyword').mp heq), h.names]
  · intro keyword'
    rw [names_addName]
    split
    · refine List.pairwise_append.mpr ⟨h.sorted keyword', List.pairwise_singleton _ _, ?_⟩
      intro offset hoffset offset' hoffset'
      obtain ⟨earlier, hlt, hnames, rfl⟩ := (h.names keyword' offset).mp hoffset
      obtain ⟨-, c, hget, -⟩ := hnames.starts
      rw [List.mem_singleton.mp hoffset']
      exact byteSize_take_lt hlt hget
    · exact h.sorted keyword'

end Clauses

/-! ## The scan -/

/-- What the state of the scan says in front of an index. -/
structure State.Reads (t : Text) (index : Nat) (state : State) : Prop where
  offset : state.offset = byteSize (t.take index)
  before : state.before = (t.take index).getLast?
  depth : state.depth = depthAt t index
  head : ∀ brace < index, t[brace]? = some '{' → depthAt t brace ≠ 0
  governed : Governed t index state.clause state.skip state.expecting
  found : FoundBefore t index state.found

theorem State.reads_initial (t : Text) : State.initial.Reads t 0 := by
  refine ⟨rfl, by simp [State.initial], ?_, by simp, ⟨rfl, rfl, by simp⟩, ?_⟩
  · simp [State.initial, depthAt]
  · constructor
    · simp [State.initial, empty]
    · simp
    · intro keyword offset
      cases keyword <;> simp [State.initial, empty, names]
    · intro keyword
      cases keyword <;> simp [State.initial, empty, names]

section Scan

variable {t : Text} {index : Nat} {c : Char} {rest : Text} {state : State}

/-- Outside of brackets the scan is at an index that counts. -/
theorem State.Reads.outside (h : state.Reads t index) (hdepth : state.depth = 0) :
    Outside t index :=
  ⟨by rw [← h.depth, hdepth], h.head⟩

/-- While letters are skipped, the scan is within an opening. -/
theorem State.Reads.exists_opens (h : state.Reads t index) (hskip : state.skip ≠ 0) :
    ∃ keyword start stop, Opens t keyword start stop ∧ start < index ∧ index < stop := by
  have hgoverned := h.governed
  cases hclause : state.clause with
  | none =>
    rw [hclause] at hgoverned
    exact absurd hgoverned.1 hskip
  | some keyword =>
    rw [hclause] at hgoverned
    obtain ⟨start, stop, hgoverns, hleft, -⟩ := hgoverned
    exact ⟨keyword, start, stop, hgoverns.opens, hgoverns.before, by omega⟩

/-- The scan goes on only over characters that do not end the head. -/
theorem State.Reads.head_succ (h : state.Reads t index) (hget : t[index]? = some c)
    (hends : ¬ state.endsHead c = true) :
    ∀ brace < index + 1, t[brace]? = some '{' → depthAt t brace ≠ 0 := by
  intro brace hlt hbrace
  by_cases hindex : brace = index
  · subst hindex
    obtain rfl : c = '{' := Option.some.inj (hget.symm.trans hbrace)
    rw [← h.depth]
    by_cases hskip : state.skip = 0
    · simpa [State.endsHead, hskip] using hends
    · obtain ⟨keyword, start, stop, hopens, hstart, hstop⟩ := h.exists_opens hskip
      obtain ⟨c, hget', -, -, hc, -⟩ := hopens.inside (Nat.le_of_lt hstart) hstop
      exact absurd (Option.some.inj (hget'.symm.trans hget)) hc
  · exact h.head brace (by omega) hbrace

/-- Past a character, with what it changes about clauses and adds to what was found. -/
theorem State.Reads.moved (h : state.Reads t index) (hget : t[index]? = some c)
    (hends : ¬ state.endsHead c = true) {next : State}
    (hoffset : next.offset = state.offset + c.utf8Size) (hbefore : next.before = some c)
    (hdepth : next.depth = state.depth + bracketShift state.before c)
    (hgoverned : Governed t (index + 1) next.clause next.skip next.expecting)
    (hfound : FoundBefore t (index + 1) next.found) : next.Reads t (index + 1) := by
  refine ⟨?_, ?_, ?_, h.head_succ hget hends, hgoverned, hfound⟩
  · rw [hoffset, h.offset, take_succ_of_getElem? hget, byteSize_append, byteSize_cons, byteSize_nil,
      Nat.add_zero]
  · rw [hbefore, take_succ_of_getElem? hget, List.getLast?_concat]
  · rw [hdepth, h.depth, h.before, depthAt_succ hget]

/-- The state past a character that changes no more than the depth and what is left of an opening. -/
def State.passed (state : State) (c : Char) : State :=
  { state with
    offset := state.offset + c.utf8Size
    before := some c
    skip := state.skip - 1
    depth := state.depth + bracketShift state.before c }

/-- Such a character opens no clause and, outside of openings, is no comma in a clause and no start of
    an awaited name. -/
theorem State.Reads.passed (h : state.Reads t index) (hget : t[index]? = some c)
    (hends : ¬ state.endsHead c = true) (hopen : ∀ keyword stop, ¬ Opens t keyword index stop)
    (hcomma : state.skip = 0 → state.clause.isSome = true → ¬ CommaAt t index)
    (hstart : state.skip = 0 → state.expecting = true → ¬ StartsAt t index) :
    (state.passed c).Reads t (index + 1) := by
  refine h.moved hget hends rfl rfl rfl (h.governed.pass hopen hcomma hstart) ?_
  refine h.found.pass hopen ?_
  intro keyword hnames
  obtain ⟨-, hskip, hexpecting, hstarts, -⟩ := h.governed.names_iff.mp hnames
  exact hstart hskip hexpecting hstarts

/-- A bracket starts nothing. -/
theorem State.Reads.bracket (h : state.Reads t index) (hget : t[index]? = some c)
    (hends : ¬ state.endsHead c = true) (hc : ¬ isIdentifierPart c = true) (hcomma : c ≠ ',') :
    (state.passed c).Reads t (index + 1) := by
  refine h.passed hget hends (not_opens_of_not_part hget hc) ?_ ?_
  · intro _ _ hat
    exact hcomma (Option.some.inj (hget.symm.trans hat.2))
  · intro _ _
    exact not_startsAt_of_not_part hget hc

/-- Past a comma in a clause. -/
theorem State.Reads.comma (h : state.Reads t index) (hget : t[index]? = some ',')
    (hskip : state.skip = 0) (hdepth : state.depth = 0) (hclause : state.clause.isSome = true) :
    ({ state with
        offset := state.offset + ','.utf8Size
        before := some ','
        expecting := true } : State).Reads t (index + 1) := by
  have hopen := not_opens_of_not_part hget (by decide)
  have hends : ¬ state.endsHead ',' = true := by simp [State.endsHead]
  have hshift : state.depth = state.depth + bracketShift state.before ',' := by simp [bracketShift]
  obtain ⟨keyword, hkeyword⟩ := Option.isSome_iff_exists.mp hclause
  have hgoverned := h.governed
  rw [hkeyword, hskip] at hgoverned
  refine h.moved hget hends rfl rfl hshift ?_ ?_
  · dsimp only
    rw [hkeyword, hskip]
    exact hgoverned.comma hopen ⟨h.outside hdepth, hget⟩
  · refine h.found.pass hopen ?_
    intro keyword' hnames
    exact not_startsAt_of_not_part hget (by decide) hnames.starts

/-- Past the first letter of an opening. -/
theorem State.Reads.opening (h : state.Reads t index) (hdrop : t.drop index = c :: rest)
    (hdepth : state.depth = 0) {keyword : Keyword} {spelled : Text}
    (hopening : opening? state.before (c :: rest) = some (keyword, spelled)) :
    ({ state with
        offset := state.offset + c.utf8Size
        before := some c
        skip := spelled.length - 1
        clause := some keyword
        expecting := true
        found := openedAt (state.offset + byteSize spelled) state.found keyword } : State).Reads t
      (index + 1) := by
  have hget := getElem?_of_drop hdrop
  rw [h.before, ← hdrop] at hopening
  have hopens := Opens.of_opening? (h.outside hdepth) hopening
  obtain ⟨c', hget', hopened, hclosed, hbrace, -⟩ := hopens.inside (Nat.le_refl _)
    (by have := hopens.start_lt_stop; omega)
  obtain rfl := Option.some.inj (hget'.symm.trans hget)
  obtain ⟨-, later, -, -, -, hspelled, -⟩ := exists_of_opening? hopening
  have hends : ¬ state.endsHead c' = true := by simp [State.endsHead, hbrace]
  refine h.moved hget hends rfl rfl ?_ ?_ ?_
  · simp [bracketShift, hopened, hclosed]
  · have hleft : spelled.length - 1 = index + spelled.length - (index + 1) := by omega
    dsimp only
    rw [hleft]
    exact hopens.governed
  · dsimp only
    rw [h.offset, ← byteSize_take_add hspelled]
    exact h.found.opened hopens

/-- Past the start of a name that is awaited. -/
theorem State.Reads.name (h : state.Reads t index) (hget : t[index]? = some c)
    (hskip : state.skip = 0) (hdepth : state.depth = 0)
    (hopen : ∀ keyword stop, ¬ Opens t keyword index stop) (hexpecting : state.expecting = true)
    (hc : isIdentifierStart c = true) :
    ({ state with
        offset := state.offset + c.utf8Size
        before := some c
        expecting := false
        found := addName state.found state.offset state.clause } : State).Reads t (index + 1) := by
  obtain ⟨hopened, hclosed, hbrace, hcomma⟩ :=
    ne_of_isIdentifierPart (isIdentifierPart_of_isIdentifierStart hc)
  have hends : ¬ state.endsHead c = true := by simp [State.endsHead, hbrace]
  have hstart : StartsAt t index := ⟨h.outside hdepth, c, hget, hc⟩
  have hgoverned := h.governed
  cases hclause : state.clause with
  | none =>
    rw [hclause] at hgoverned
    exact absurd (hexpecting.symm.trans hgoverned.2.1) (by decide)
  | some keyword =>
    refine h.moved hget hends rfl rfl ?_ ?_ ?_
    · simp [bracketShift, hopened, hclosed]
    · rw [hclause, hskip] at hgoverned
      dsimp only
      rw [hskip]
      refine hgoverned.name hopen ?_ hstart
      rintro ⟨-, hget'⟩
      exact hcomma (Option.some.inj (hget.symm.trans hget'))
    · dsimp only
      rw [h.offset]
      refine h.found.named hopen ?_
      intro keyword'
      rw [hgoverned.names_iff]
      simp [hclause, hskip, hexpecting, hstart, hopen, eq_comm]

/-- Outside of brackets and of openings. -/
theorem State.Reads.stepOutside (h : state.Reads t index) (hdrop : t.drop index = c :: rest)
    (hends : ¬ state.endsHead c = true) (hskip : state.skip = 0) (hdepth : state.depth = 0)
    (hshift : bracketShift state.before c = 0) :
    ({ state.stepOutside c rest with
        offset := state.offset + c.utf8Size
        before := some c } : State).Reads t (index + 1) := by
  have hget := getElem?_of_drop hdrop
  rw [State.stepOutside]
  split
  · next hcomma =>
    rw [Bool.and_eq_true, beq_iff_eq] at hcomma
    obtain ⟨rfl, hclause⟩ := hcomma
    exact h.comma hget hskip hdepth hclause
  · next hcomma =>
    split
    · next keyword spelled hopening =>
      have hopened := h.opening hdrop hdepth hopening
      cases keyword <;> exact hopened
    · next hnone =>
      have hopen : ∀ keyword stop, ¬ Opens t keyword index stop := by
        intro keyword stop hopens
        obtain ⟨spelled, hopening, -⟩ := hopens.exists_opening?
        rw [← h.before, hdrop, hnone] at hopening
        cases hopening
      split
      · next hname =>
        rw [Bool.and_eq_true] at hname
        exact h.name hget hskip hdepth hopen hname.1 hname.2
      · next hname =>
        have hpassed := h.passed hget hends hopen (fun _ hclause hat => ?_)
          (fun _ hexpecting hat => ?_)
        · simpa [State.passed, hskip, hshift] using hpassed
        · have hc := Option.some.inj (hget.symm.trans hat.2)
          simp [hc, hclause] at hcomma
        · obtain ⟨-, c', hget', hc'⟩ := hat
          obtain rfl := Option.some.inj (hget'.symm.trans hget)
          simp [hexpecting, hc'] at hname

/-- **One step.** The state behind a character says what the text up to there says. -/
theorem State.Reads.step (h : state.Reads t index) (hdrop : t.drop index = c :: rest)
    (hends : ¬ state.endsHead c = true) : (state.step c rest).Reads t (index + 1) := by
  have hget := getElem?_of_drop hdrop
  rw [State.step]
  split
  · next hskip =>
    -- within an opening
    obtain ⟨keyword, start, stop, hopens, hstart, hstop⟩ := h.exists_opens hskip
    obtain ⟨c', hget', hopened, hclosed, -⟩ := hopens.inside (Nat.le_of_lt hstart) hstop
    obtain rfl := Option.some.inj (hget'.symm.trans hget)
    have hpassed := h.passed hget hends
      (fun keyword' stop' hopens' => Nat.not_lt.mpr (hopens.stop_le hopens' hstart) hstop)
      (fun hzero => absurd hzero hskip) (fun hzero => absurd hzero hskip)
    simpa [State.passed, bracketShift, hopened, hclosed] using hpassed
  · next hskip =>
    have hskip' : state.skip = 0 := by simpa using hskip
    split
    · next hc =>
      obtain rfl : c = '<' := by simpa using hc
      simpa [State.passed, bracketShift, hskip'] using
        h.bracket hget hends (by decide) (by decide)
    · next hopened =>
      split
      · next hc =>
        obtain ⟨rfl, hbefore⟩ : c = '>' ∧ state.before ≠ some '=' := by simpa using hc
        simpa [State.passed, bracketShift, hskip', hbefore, Int.sub_eq_add_neg] using
          h.bracket hget hends (by decide) (by decide)
      · next hclosed =>
        have hshift : bracketShift state.before c = 0 := by
          rw [bracketShift, if_neg hopened, if_neg hclosed]
        split
        · next hdepth =>
          -- inside of brackets no index counts
          have houtside : ¬ Outside t index := fun houtside =>
            hdepth (h.depth.trans houtside.depth)
          have hpassed := h.passed hget hends (fun _ _ hopens => houtside hopens.outside)
            (fun _ _ hat => houtside hat.1) (fun _ _ hat => houtside hat.1)
          simpa [State.passed, hskip', hshift] using hpassed
        · next hdepth =>
          exact h.stepOutside hdrop hends hskip' (by simpa using hdepth) hshift

/-- **The run.** Where the scan stops, it has found what there is in front of that index, and no
    identifier character behind it counts. -/
theorem State.Reads.run (h : state.Reads t index) (hdrop : t.drop index = rest) :
    ∃ stop, FoundBefore t stop (run state rest) ∧
      ∀ later c, Outside t later → t[later]? = some c → isIdentifierPart c = true →
        later < stop := by
  induction rest generalizing index state with
  | nil =>
    refine ⟨index, h.found, ?_⟩
    intro later c _ hget _
    have hlength := List.drop_eq_nil_iff.mp hdrop
    have hlater := (List.getElem?_eq_some_iff.mp hget).1
    omega
  | cons c rest ih =>
    have hget := getElem?_of_drop hdrop
    rw [SupertypeClauses.run]
    split
    · next hends =>
      obtain ⟨⟨-, hdepth⟩, rfl⟩ : (state.skip = 0 ∧ state.depth = 0) ∧ c = '{' := by
        simpa [State.endsHead] using hends
      -- the brace itself is no identifier character, and what is behind it is not in the head
      refine ⟨index, h.found, ?_⟩
      intro later c houtside hget' hc
      refine Nat.lt_of_not_le fun hle => ?_
      rcases Nat.lt_or_eq_of_le hle with hlt | rfl
      · exact houtside.head index hlt hget (h.depth.symm.trans hdepth)
      · obtain rfl := Option.some.inj (hget.symm.trans hget')
        exact absurd hc (by decide)
    · next hends => exact ih (h.step hdrop hends) (drop_succ_of_drop hdrop)

end Scan

section Whole

variable {t : Text} {stop : Nat} {found : SupertypeClauses}

/-- Once all openings are passed, `extended` tells where the first `extends` clause goes on. -/
theorem FoundBefore.extended_eq_some_iff (h : FoundBefore t stop found)
    (hopens : ∀ keyword start stop', Opens t keyword start stop' → start < stop) (offset : Nat) :
    found.extended = some offset ↔
      ∃ start stop', OpensFirst t .extending start stop' ∧ byteSize (t.take stop') = offset := by
  constructor
  · intro hextended
    obtain ⟨start, stop', -, hfirst⟩ := h.extended offset hextended
    exact ⟨start, stop', hfirst⟩
  · rintro ⟨start, stop', hfirst, rfl⟩
    cases hextended : found.extended with
    | none =>
      have hpast := h.unextended hextended start stop' hfirst.opens
      exact absurd (hopens _ _ _ hfirst.opens) (Nat.not_lt.mpr hpast)
    | some offset' =>
      obtain ⟨start', stop'', -, hfirst', rfl⟩ := h.extended offset' hextended
      rw [hfirst'.unique hfirst]

/-- Once all openings are passed, `extended` is absent only if there was no `extends` clause. -/
theorem FoundBefore.extended_eq_none_iff (h : FoundBefore t stop found)
    (hopens : ∀ keyword start stop', Opens t keyword start stop' → start < stop) :
    found.extended = none ↔ ∀ start stop', ¬ Opens t .extending start stop' := by
  constructor
  · intro hnone start stop' hopens'
    have hpast := h.unextended hnone start stop' hopens'
    exact absurd (hopens _ _ _ hopens') (Nat.not_lt.mpr hpast)
  · intro hnone
    rw [Option.eq_none_iff_forall_not_mem]
    intro offset hoffset
    obtain ⟨start, stop', -, hfirst, -⟩ := h.extended offset hoffset
    exact hnone start stop' hfirst.opens

end Whole

/-- **The meaning of the scan**, on every text: `extended` is where the first `extends` clause goes on
    behind its blanks, and the two lists hold, in the order of the text, the offsets at which
    supertypes are named in clauses of their keyword. -/
theorem scan_finds_occurrences (t : Text) :
    (∀ offset, (scan t).extended = some offset ↔
      ∃ start stop, OpensFirst t .extending start stop ∧ byteSize (t.take stop) = offset) ∧
    ((scan t).extended = none ↔ ∀ start stop, ¬ Opens t .extending start stop) ∧
    ∀ keyword, ((scan t).names keyword).Pairwise (· < ·) ∧
      ∀ offset, offset ∈ (scan t).names keyword ↔
        ∃ index, Names t keyword index ∧ byteSize (t.take index) = offset := by
  obtain ⟨stop, hfound, hends⟩ := (State.reads_initial t).run rfl
  rw [List.drop_zero, ← scan] at hfound
  have hopens : ∀ keyword start stop', Opens t keyword start stop' → start < stop := by
    intro keyword start stop' hopens
    obtain ⟨c, hget, hc⟩ := hopens.exists_start
    exact hends start c hopens.outside hget hc
  have hnames : ∀ keyword index, Names t keyword index → index < stop := by
    intro keyword index hnames
    obtain ⟨houtside, c, hget, hc⟩ := hnames.starts
    exact hends index c houtside hget (isIdentifierPart_of_isIdentifierStart hc)
  refine ⟨hfound.extended_eq_some_iff hopens, hfound.extended_eq_none_iff hopens, ?_⟩
  intro keyword
  refine ⟨hfound.sorted keyword, ?_⟩
  intro offset
  rw [hfound.names]
  constructor
  · rintro ⟨index, -, hnames', hoffset⟩
    exact ⟨index, hnames', hoffset⟩
  · rintro ⟨index, hnames', hoffset⟩
    exact ⟨index, hnames keyword index hnames', hnames', hoffset⟩

/-- Names behind digits and arrows count, those behind other names or in brackets do not. -/
example : scan "extends é, 1B C, => D implements , E<F, extends G>, H extends\t \x7b".toList =
    ⟨some 8, [8, 13, 21], [36, 53]⟩ := by decide

end Lineage.SupertypeClauses
