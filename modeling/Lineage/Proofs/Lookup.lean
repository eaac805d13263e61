import Lineage.Proofs.Hierarchy.Recording

set_option autoImplicit false

/-! # The memo of a lookup

Lookups remember the declaration at a place from the first search that succeeds, and nothing from a
search that fails. What that means for the services is said of a log of their calls:
`Services.logging` are services that answer as the plain ones do and write down each call with its
answer, and `Call.runLogged` starts a new log whenever the memo is emptied.

The memo is then just what can be read off the log (`Memoizes`), however the services change their
minds: the place of a success is not searched again, that of a failure is, at its next use. -/

namespace Lineage

variable {σ : Type}

/-! ## Logs of service calls -/

/-- A call of the services with its answer. -/
inductive ServiceEvent where
  | definitions (uri : String) (position : Position)
      (answer : Except ServiceFailure (List Location))
  | declaration (location : Location) (answer : Except ServiceFailure (Option Declaration))

namespace ServiceEvent

/-- What a successful search at a place has found. -/
def found? (location : Location) : ServiceEvent → Option (Option Declaration)
  | .declaration other (.ok found) => if other = location then some found else none
  | _ => none

/-- Whether an event is a search at a place, however it ended. -/
def SearchesAt (location : Location) (event : ServiceEvent) : Prop :=
  ∃ answer, event = .declaration location answer

@[simp] theorem found?_definitions (location : Location) (uri : String) (position : Position)
    (answer : Except ServiceFailure (List Location)) :
    (definitions uri position answer).found? location = none := rfl

@[simp] theorem found?_error (location other : Location) (failure : ServiceFailure) :
    (declaration other (.error failure)).found? location = none := rfl

@[simp] theorem found?_ok (location other : Location) (found : Option Declaration) :
    (declaration other (.ok found)).found? location =
      if other = location then some found else none := rfl

end ServiceEvent

/-- The calls of some services, in order. -/
abbrev ServiceLog := List ServiceEvent

namespace ServiceLog

/-- What the first successful search at a place has found. -/
def answer? (log : ServiceLog) (location : Location) : Option (Option Declaration) :=
  log.findSome? (ServiceEvent.found? location)

/-- The places among `locations` without an answer so far, each at its first use. -/
def firstUses (log : ServiceLog) (locations : List Location) : List Location :=
  (locations.filter fun location => (log.answer? location).isNone).eraseDups

/-- Searches that have succeeded. -/
def searches (found : List (Location × Option Declaration)) : ServiceLog :=
  found.map fun entry => .declaration entry.1 (.ok entry.2)

/-- Where a search has succeeded no other follows. -/
def SearchedOnce (log : ServiceLog) : Prop :=
  log.Pairwise fun earlier later => ∀ location, (earlier.found? location).isSome →
    ¬ later.SearchesAt location

theorem answer?_append (log more : ServiceLog) (location : Location) :
    answer? (log ++ more) location = (log.answer? location).or (answer? more location) :=
  List.findSome?_append

theorem answer?_concat (log : ServiceLog) (event : ServiceEvent) (location : Location) :
    answer? (log ++ [event]) location = (log.answer? location).or (event.found? location) := by
  rw [answer?_append]
  congr 1
  show List.findSome? (ServiceEvent.found? location) [event] = _
  rw [List.findSome?_singleton]

/-- An answer stays the first one. -/
theorem answer?_append_of_eq_some {log : ServiceLog} {location : Location}
    {found : Option Declaration} (h : log.answer? location = some found) (more : ServiceLog) :
    answer? (log ++ more) location = some found := by
  rw [answer?_append, h, Option.some_or]

theorem firstUses_cons_of_answered {log : ServiceLog} {location : Location}
    {found : Option Declaration} (h : log.answer? location = some found)
    (locations : List Location) :
    log.firstUses (location :: locations) = log.firstUses locations := by
  rw [firstUses, List.filter_cons_of_neg (by simp [h]), firstUses]

/-- Once a place has got its answer, it is not used for the first time again. -/
theorem firstUses_cons_of_unanswered {log : ServiceLog} {location : Location}
    (h : log.answer? location = none) (found : Option Declaration) (locations : List Location) :
    log.firstUses (location :: locations) =
      location :: firstUses (log ++ [.declaration location (.ok found)]) locations := by
  have hrest : locations.filter (fun other =>
        (answer? (log ++ [.declaration location (.ok found)]) other).isNone) =
      (locations.filter fun other => (log.answer? other).isNone).filter
        fun other => !other == location := by
    rw [List.filter_filter]
    refine List.filter_congr fun other _ => ?_
    rw [answer?_concat, ServiceEvent.found?_ok]
    by_cases heq : location = other
    · subst heq
      simp
    · simp [heq, Ne.symm heq]
  rw [firstUses, List.filter_cons_of_pos (by simp [h]), List.eraseDups_cons, firstUses, hrest]

theorem SearchedOnce.concat {log : ServiceLog} (h : log.SearchedOnce) {event : ServiceEvent}
    (hevent : ∀ location, event.SearchesAt location → log.answer? location = none) :
    SearchedOnce (log ++ [event]) := by
  refine List.pairwise_append.mpr ⟨h, List.pairwise_singleton _ _, ?_⟩
  intro earlier hearlier later hlater location hfound hsearches
  rw [List.mem_singleton.mp hlater] at hsearches
  have hnone := List.findSome?_eq_none_iff.mp (hevent location hsearches) earlier hearlier
  rw [hnone] at hfound
  cases hfound

end ServiceLog

/-! ## Services that keep a log -/

/-- A state of the services with the log of their calls. -/
abbrev Logged (σ : Type) := σ × ServiceLog

/-- A service call that is written down. -/
def ServiceCall.logged {α : Type} (call : ServiceCall σ α)
    (event : Except ServiceFailure α → ServiceLog) : ServiceCall (Logged σ) α :=
  fun state =>
    let (answer, world) := exec call state.1
    (answer, world, state.2 ++ event answer)

/-- Services that write down the lookups they are asked for. -/
def Services.logging (services : Services σ) : Services (Logged σ) where
  listDeclarations uri := (services.listDeclarations uri).logged fun _ => []
  resolveDefinitions uri position :=
    (services.resolveDefinitions uri position).logged fun answer =>
      [.definitions uri position answer]
  findDeclaration uri range :=
    (services.findDeclaration uri range).logged fun answer => [.declaration ⟨uri, range⟩ answer]
  languageId? := services.languageId?
  declarationKeys := services.declarationKeys

theorem exec_logged {α : Type} (call : ServiceCall σ α)
    (event : Except ServiceFailure α → ServiceLog) (state : Logged σ) :
    exec (call.logged event) state =
      ((exec call state.1).1, (exec call state.1).2, state.2 ++ event (exec call state.1).1) := rfl

/-- Keeping a log changes no answer. -/
theorem Services.logging_mirror (services : Services σ) :
    Services.Mirror Prod.fst services.logging services :=
  ⟨fun _ _ _ => rfl, fun _ _ _ => rfl⟩

/-- The log of the services that lookups are made of. -/
def LookupState.log (s : LookupState (Logged σ)) : ServiceLog :=
  s.world.2

namespace Lookup

variable (services : Services σ) {s : LookupState (Logged σ)}

/-! ## Searches at several places -/

/-- What is written down, behind `log`, when the declarations at some places are asked for one after
    the other. -/
inductive Searches (log : ServiceLog) (locations : List Location) :
    Except ServiceFailure (List (Option Declaration)) → ServiceLog → Prop where
  /-- All places without an answer are searched once, and each place has its first answer. -/
  | done {found : List (Location × Option Declaration)} {answers : List (Option Declaration)} :
      found.map Prod.fst = log.firstUses locations →
      locations.map (ServiceLog.answer? (log ++ ServiceLog.searches found)) = answers.map some →
      Searches log locations (.ok answers) (log ++ ServiceLog.searches found)
  /-- The first search that fails is the last one. -/
  | failed {before after : List Location} {location : Location}
      {found : List (Location × Option Declaration)} {failure : ServiceFailure} :
      locations = before ++ location :: after →
      found.map Prod.fst = log.firstUses before →
      ServiceLog.answer? (log ++ ServiceLog.searches found) location = none →
      Searches log locations (.error failure)
        (log ++ ServiceLog.searches found ++ [.declaration location (.error failure)])

/-- The memo holds the first answers of the log, and no search follows one that has succeeded. -/
structure Memoizes (s : LookupState (Logged σ)) : Prop where
  memo_eq : ∀ location, s.memo.get? location = s.log.answer? location
  searchedOnce : s.log.SearchedOnce

theorem memoizes_start (world : σ) : Memoizes (start (world, [])) :=
  ⟨fun _ => rfl, List.Pairwise.nil⟩

theorem exec_declarationAt_of_answered (h : Memoizes s) {location : Location}
    {found : Option Declaration} (hfound : s.log.answer? location = some found) :
    exec (declarationAt services.logging location) s = (.ok found, s) := by
  rw [exec_declarationAt, h.memo_eq, hfound]

/-- A place without an answer is searched, whether it was searched in vain before or not. -/
theorem exec_declarationAt_of_unanswered (h : Memoizes s) {location : Location}
    (hnone : s.log.answer? location = none) :
    ∃ answer s', exec (declarationAt services.logging location) s = (answer, s') ∧
      s'.log = s.log ++ [.declaration location answer] ∧ Memoizes s' := by
  have honce : ∀ answer, ServiceLog.SearchedOnce (s.log ++ [.declaration location answer]) := by
    intro answer
    refine h.searchedOnce.concat ?_
    rintro other ⟨_, ⟨⟩⟩
    exact hnone
  rw [exec_declarationAt, h.memo_eq, hnone]
  dsimp only
  rw [Services.logging, exec_logged]
  rcases exec (services.findDeclaration location.uri location.range) s.world.1 with
    ⟨failure | found, world⟩
  · refine ⟨_, _, rfl, rfl, ⟨fun other => ?_, honce _⟩⟩
    show s.memo.get? other = ServiceLog.answer? (s.log ++ [.declaration location (.error failure)]) other
    rw [ServiceLog.answer?_concat, h.memo_eq, ServiceEvent.found?_error, Option.or_none]
  · refine ⟨_, _, rfl, rfl, ⟨fun other => ?_, honce _⟩⟩
    show (s.memo.insert location found).get? other =
      ServiceLog.answer? (s.log ++ [.declaration location (.ok found)]) other
    rw [ServiceLog.answer?_concat, Assoc.get?_insert, h.memo_eq, ServiceEvent.found?_ok]
    by_cases heq : location = other
    · subst heq
      rw [hnone]
      simp
    · simp [heq]

namespace Searches

variable {log log' : ServiceLog} {location : Location} {found : Option Declaration}
  {locations : List Location} {result : Except ServiceFailure (List (Option Declaration))}

/-- A place that has its answer is not searched. -/
theorem cons_of_answered (hfound : log.answer? location = some found)
    (h : Searches log locations result log') :
    Searches log (location :: locations) (result.map (found :: ·)) log' := by
  cases h with
  | done huses hanswers =>
    refine .done (by rw [huses, ServiceLog.firstUses_cons_of_answered hfound]) ?_
    rw [List.map_cons, List.map_cons, hanswers, ServiceLog.answer?_append_of_eq_some hfound]
  | failed hlocations huses hnone =>
    refine .failed (by rw [hlocations, List.cons_append]) ?_ hnone
    rw [huses, ServiceLog.firstUses_cons_of_answered hfound]

/-- A place that gets its answer now is searched first. -/
theorem cons_of_unanswered (hnone : log.answer? location = none)
    (h : Searches (log ++ [.declaration location (.ok found)]) locations result log') :
    Searches log (location :: locations) (result.map (found :: ·)) log' := by
  have hlog : ∀ others, log ++ [.declaration location (.ok found)] ++ ServiceLog.searches others =
      log ++ ServiceLog.searches ((location, found) :: others) := by
    intro others
    rw [List.append_assoc]
    rfl
  have hfirst : ServiceLog.answer? (log ++ [.declaration location (.ok found)]) location =
      some found := by
    rw [ServiceLog.answer?_concat, hnone, ServiceEvent.found?_ok, if_pos rfl, Option.none_or]
  cases h with
  | @done others answers huses hanswers =>
    have hanswer := ServiceLog.answer?_append_of_eq_some hfirst (ServiceLog.searches others)
    rw [hlog] at hanswers hanswer ⊢
    refine .done ?_ ?_
    · rw [List.map_cons, huses, ServiceLog.firstUses_cons_of_unanswered hnone]
    · rw [List.map_cons, List.map_cons, hanswers, hanswer]
  | @failed before after other others failure hlocations huses hunanswered =>
    rw [hlog] at hunanswered ⊢
    refine .failed (by rw [hlocations, List.cons_append]) ?_ hunanswered
    rw [List.map_cons, huses, ServiceLog.firstUses_cons_of_unanswered hnone]

end Searches

theorem exec_mapM_declarationAt (locations : List Location) (h : Memoizes s) :
    ∃ result s', exec (locations.mapM (declarationAt services.logging)) s = (result, s') ∧
      Searches s.log locations result s'.log ∧ Memoizes s' := by
  induction locations generalizing s with
  | nil =>
    have hnone : Searches s.log [] (.ok []) (s.log ++ ServiceLog.searches []) := .done rfl rfl
    exact ⟨_, _, rfl, by simpa [ServiceLog.searches] using hnone, h⟩
  | cons location locations ih =>
    rw [exec_mapM_cons]
    cases hanswer : s.log.answer? location with
    | some found =>
      rw [exec_declarationAt_of_answered services h hanswer]
      obtain ⟨result, s', hexec, hsearches, hs'⟩ := ih h
      have hcons := hsearches.cons_of_answered hanswer
      dsimp only
      rw [hexec]
      cases result with
      | error failure => exact ⟨_, _, rfl, hcons, hs'⟩
      | ok answers => exact ⟨_, _, rfl, hcons, hs'⟩
    | none =>
      obtain ⟨answer, s₁, hfirst, hlog, hs₁⟩ := exec_declarationAt_of_unanswered services h hanswer
      rw [hfirst]
      cases answer with
      | error failure =>
        have hfailed : Searches s.log (location :: locations) (.error failure)
            (s.log ++ ServiceLog.searches [] ++ [.declaration location (.error failure)]) :=
          .failed (List.nil_append _).symm rfl (by simpa [ServiceLog.searches] using hanswer)
        refine ⟨_, _, rfl, ?_, hs₁⟩
        rw [hlog]
        simpa [ServiceLog.searches] using hfailed
      | ok found =>
        obtain ⟨result, s', hexec, hsearches, hs'⟩ := ih hs₁
        rw [hlog] at hsearches
        have hcons := hsearches.cons_of_unanswered hanswer
        dsimp only
        rw [hexec]
        cases result with
        | error failure => exact ⟨_, _, rfl, hcons, hs'⟩
        | ok answers => exact ⟨_, _, rfl, hcons, hs'⟩

/-! ## Definition lookups -/

/-- What is written down, behind `log`, when the definitions at a position are looked up. -/
inductive LooksUp (log : ServiceLog) (uri : String) (position : Position) :
    Except ServiceFailure (List Declaration) → ServiceLog → Prop where
  /-- The services do not tell the places of the definitions, so no place is searched. -/
  | unresolved {failure : ServiceFailure} :
      LooksUp log uri position (.error failure)
        (log ++ [.definitions uri position (.error failure)])
  /-- The search at one of the places fails. -/
  | failed {locations : List Location} {failure : ServiceFailure} {log' : ServiceLog} :
      Searches (log ++ [.definitions uri position (.ok locations)]) locations (.error failure) log' →
      LooksUp log uri position (.error failure) log'
  /-- The types among the first answers for all places. -/
  | found {locations : List Location} {answers : List (Option Declaration)} {log' : ServiceLog} :
      Searches (log ++ [.definitions uri position (.ok locations)]) locations (.ok answers) log' →
      LooksUp log uri position
        (.ok ((answers.filterMap id).filter fun declaration => declaration.kind.isType)) log'

theorem Memoizes.exec_definitionsAt (h : Memoizes s) (uri : String) (position : Position) :
    ∃ result s', exec (definitionsAt services.logging uri position) s = (result, s') ∧
      LooksUp s.log uri position result s'.log ∧ Memoizes s' := by
  -- the question for the places is written down first and leaves all answers as they are
  have hasked : ∀ (world : σ) answer,
      Memoizes ⟨(world, s.log ++ [.definitions uri position answer]), s.memo⟩ := by
    intro world answer
    refine ⟨fun location => ?_, h.searchedOnce.concat ?_⟩
    · show s.memo.get? location =
        ServiceLog.answer? (s.log ++ [.definitions uri position answer]) location
      rw [ServiceLog.answer?_concat, h.memo_eq, ServiceEvent.found?_definitions, Option.or_none]
    · rintro location ⟨_, ⟨⟩⟩
  rw [Lookup.exec_definitionsAt, Services.logging, exec_logged, ← Services.logging]
  rcases exec (services.resolveDefinitions uri position) s.world.1 with ⟨failure | locations, world⟩
  · exact ⟨_, _, rfl, .unresolved, hasked world (.error failure)⟩
  · obtain ⟨result, s', hexec, hsearches, hs'⟩ :=
      exec_mapM_declarationAt services locations (hasked world (.ok locations))
    dsimp only
    have hsame : exec (locations.mapM (declarationAt services.logging))
      { s with world := (world, s.world.2 ++ [.definitions uri position (.ok locations)]) } =
        (result, s') := hexec
    rw [hsame]
    cases result with
    | error failure => exact ⟨_, _, rfl, .failed hsearches, hs'⟩
    | ok answers => exact ⟨_, _, rfl, .found hsearches, hs'⟩

/-! ## Sequences of calls -/

/-- What is asked of lookups. -/
inductive Call where
  | definitionsAt (uri : String) (position : Position)
  | clear

/-- The state after a call, however it ends. -/
def Call.run (services : Services σ) (s : LookupState σ) : Call → LookupState σ
  | .definitionsAt uri position => (exec (Lookup.definitionsAt services uri position) s).2
  | .clear => Lookup.clear s

/-- The state after a call, with the log since the memo was last empty. -/
def Call.runLogged (services : Services σ) (s : LookupState (Logged σ)) :
    Call → LookupState (Logged σ)
  | .definitionsAt uri position => (exec (Lookup.definitionsAt services.logging uri position) s).2
  | .clear => { Lookup.clear s with world := (s.world.1, []) }

theorem Memoizes.runLogged (h : Memoizes s) (call : Call) :
    Memoizes (call.runLogged services s) := by
  cases call with
  | definitionsAt uri position =>
    obtain ⟨result, s', hexec, -, hs'⟩ := h.exec_definitionsAt services uri position
    rw [Call.runLogged, hexec]
    exact hs'
  | clear => exact memoizes_start s.world.1

theorem memoizes_after_calls (world : σ) (calls : List Call) :
    Memoizes (calls.foldl (Call.runLogged services) (start (world, []))) := by
  suffices h : ∀ s, Memoizes s → Memoizes (calls.foldl (Call.runLogged services) s) from
    h _ (memoizes_start world)
  intro s hs
  induction calls generalizing s with
  | nil => exact hs
  | cons call rest ih => exact ih _ (hs.runLogged services call)

theorem mapWorld_after_calls (calls : List Call) (s : LookupState (Logged σ)) :
    (calls.foldl (Call.runLogged services) s).mapWorld Prod.fst =
      calls.foldl (Call.run services) (s.mapWorld Prod.fst) := by
  induction calls generalizing s with
  | nil => rfl
  | cons call rest ih =>
    rw [List.foldl_cons, List.foldl_cons, ih]
    congr 1
    cases call with
    | definitionsAt uri position =>
      have hmirrors := mirrors_definitionsAt services.logging_mirror uri position s
      exact (congrArg Prod.snd hmirrors).symm
    | clear => rfl

end Lookup
end Lineage
