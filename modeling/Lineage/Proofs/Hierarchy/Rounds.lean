import Lineage.Proofs.Hierarchy.Costs
import Lineage.Proofs.Hierarchy.Waiting

set_option autoImplicit false

/-! # How many rounds a resolution takes

A resolution over services that answer later comes to an end, if the answers depend on the question
alone. A round takes something off what is left to do of a job, unless the job is stuck
(`move_advances`), and a resolution that is under way is not. So a resolution takes no more rounds than
there is to do for its root (`moveUntilDone_ends`). -/

namespace Lineage

variable {σ : Type} {services : Services σ} {answers : Answers}
  {view : Declaration → Declaration} {known : Declaration → Prop} {keys : List DeclarationKey}

/-! ## Moving jobs on -/

/-- A job that is moved on comes nearer to its end, or it is stuck and nothing changes. -/
def Moves {β : Type} (left : β → Nat) (Stuck : RoundState σ → β → Prop) (job : β) (s : RoundState σ)
    (job' : β) (s' : RoundState σ) : Prop :=
  left job' < left job ∨ job' = job ∧ s' = s ∧ Stuck s job

theorem Moves.le {β : Type} {left : β → Nat} {Stuck : RoundState σ → β → Prop} {job job' : β}
    {s s' : RoundState σ} (h : Moves left Stuck job s job' s') : left job' ≤ left job := by
  rcases h with hlt | ⟨rfl, -, -⟩
  · exact Nat.le_of_lt hlt
  · exact Nat.le_refl _

/-- None of some jobs can be moved on, or one of them has failed and that counts already. -/
def AllRest {α β : Type} (joining : Joining) (result? : β → Option (Except ResolveError α))
    (Stuck : RoundState σ → β → Prop) (settled : Bool) (s : RoundState σ) (jobs : List β) : Prop :=
  (∀ job ∈ jobs, Stuck s job) ∨
    (settled = true ∨ joining = .eager) ∧
      ∃ error, joining.result? result? jobs = some (.error error)

namespace Round

variable {α β : Type}

/-- Jobs are moved on together if each of them is. -/
theorem moveAll_advances {left : β → Nat} {Stuck : RoundState σ → β → Prop}
    {I : List β → RoundState σ → Prop} {joining : Joining}
    {result? : β → Option (Except ResolveError α)} {move : β → Round σ β}
    (hmove : ∀ job jobs s, I (job :: jobs) s → ∃ job' s', exec (move job) s = (.ok job', s') ∧
      I jobs s' ∧ Moves left Stuck job s job' s')
    (settled : Bool) {jobs : List β} {s : RoundState σ} (hs : I jobs s) :
    ∃ jobs' s', exec (moveAll joining result? move settled jobs) s = (.ok jobs', s') ∧
      (∃ rest, I rest s') ∧
      Moves (fun jobs => (jobs.map left).sum) (AllRest joining result? Stuck settled) jobs s jobs'
        s' := by
  induction jobs generalizing settled s with
  | nil => exact ⟨[], s, rfl, ⟨[], hs⟩, .inr ⟨rfl, rfl, .inl (by simp)⟩⟩
  | cons job jobs ih =>
    obtain ⟨job', s', hexec, hs', hmoves⟩ := hmove job jobs s hs
    -- the other jobs are moved on as well, unless they are left at this one
    have hrest : ∀ settled',
        (∀ error, (settled' = true ∨ joining = .eager) → job' = job →
          joining.result? result? jobs = some (.error error) →
            (settled = true ∨ joining = .eager) ∧
              joining.result? result? (job :: jobs) = some (.error error)) →
        ∃ jobs' s'', exec (do return job' :: (← moveAll joining result? move settled' jobs)) s' =
            (.ok jobs', s'') ∧
          (∃ rest, I rest s'') ∧
          Moves (fun jobs => (jobs.map left).sum) (AllRest joining result? Stuck settled) (job :: jobs)
            s jobs' s'' := by
      intro settled' hcounts
      obtain ⟨jobs', s'', hall, hs'', hmoves'⟩ := ih settled' hs'
      refine ⟨job' :: jobs', s'', by rw [exec_bind, hall]; rfl, hs'', ?_⟩
      have hle := hmoves'.le
      rcases hmoves with hlt | ⟨rfl, rfl, hstuck⟩
      · refine .inl ?_
        simp only [List.map_cons, List.sum_cons]
        exact Nat.add_lt_add_of_lt_of_le hlt hle
      · rcases hmoves' with hlt | ⟨rfl, rfl, hstuck' | ⟨hsettled, error, herror⟩⟩
        · refine .inl ?_
          simp only [List.map_cons, List.sum_cons]
          exact Nat.add_lt_add_left hlt _
        · exact .inr ⟨rfl, rfl, .inl (List.forall_mem_cons.mpr ⟨hstuck, hstuck'⟩)⟩
        · obtain ⟨hsettled', hall'⟩ := hcounts error hsettled rfl herror
          exact .inr ⟨rfl, rfl, .inr ⟨hsettled', error, hall'⟩⟩
    rw [moveAll, exec_bind, hexec]
    dsimp only
    split
    · next a hresult =>
      refine hrest settled fun error hsettled heq herror => ⟨hsettled, ?_⟩
      exact Joining.result?_cons_of_ok (heq ▸ hresult) herror
    · next error hresult =>
      split
      · next hstop =>
        refine ⟨job' :: jobs, s', rfl, ⟨jobs, hs'⟩, ?_⟩
        rcases hmoves with hlt | ⟨rfl, rfl, hstuck⟩
        · refine .inl ?_
          simp only [List.map_cons, List.sum_cons]
          exact Nat.add_lt_add_right hlt _
        · refine .inr ⟨rfl, rfl, .inr ⟨by simpa using hstop, error, ?_⟩⟩
          exact Joining.result?_cons_of_error jobs hresult
      · next hgo =>
        refine hrest settled fun error' hsettled _ _ => absurd hsettled (by simpa using hgo)
    · next hresult =>
      refine hrest false fun error hsettled heq herror => ?_
      obtain rfl : joining = .eager := by simpa using hsettled
      exact ⟨.inr rfl, Joining.result?_cons_of_pending (heq ▸ hresult) herror⟩

/-! ### Lookups -/

theorem exec_attempt_lookup (action : Lookup σ α) (s : RoundState σ) :
    exec (attempt (Build.lookup action)) s =
      (.ok ((exec action s.build.lookups).1.mapError .service),
        { s with build := { s.build with lookups := (exec action s.build.lookups).2 } }) := by
  rw [exec_attempt, Build.exec_lookup]
  rcases (exec action s.build.lookups).1 with failure | a <;> rfl

theorem exec_find_waiting (services : Services σ) (location : Location) (s : RoundState σ) :
    exec (find services (.waiting location)) s =
      match s.build.lookups.memo.get? location with
      | some found => (.ok (.done (.ok found)), s)
      | none =>
        if s.asked.contains location then (.ok (.waiting location), s)
        else (.ok (.asked location), { s with asked := location :: s.asked }) := by
  rw [find, exec_bind, exec_get]
  dsimp only
  cases s.build.lookups.memo.get? location with
  | some found => rfl
  | none =>
    dsimp only
    rw [exec_bind, exec_get]
    dsimp only
    split <;> rfl

theorem exec_find_asked (services : Services σ) (location : Location) (s : RoundState σ) :
    exec (find services (.asked location)) s =
      (.ok (.done ((exec (Lookup.declarationAt services location) s.build.lookups).1.mapError
          .service)),
        { s with
          build :=
            { s.build with
              lookups := (exec (Lookup.declarationAt services location) s.build.lookups).2 }
          asked := s.asked.erase location }) := by
  rw [find, exec_bind, exec_attempt_lookup]
  rfl

theorem find_advances (hanswers : services.AnswersWith answers) (cost : Declaration → Nat)
    (job : FindJob) {s : RoundState σ} (hs : s.Upholds answers view known True) :
    ∃ job' s', exec (find services job) s = (.ok job', s') ∧ s'.Upholds answers view known True ∧
      Moves (FindJob.left answers cost) FindJob.Stuck job s job' s' := by
  cases job with
  | waiting location =>
    rw [exec_find_waiting]
    cases hmemo : s.build.lookups.memo.get? location with
    | some found =>
      refine ⟨_, _, rfl, hs, .inl ?_⟩
      rw [FindJob.left, FindJob.left, hs.build.memo location found hmemo]
      cases found <;> exact Nat.lt_add_of_pos_right Nat.two_pos
    | none =>
      dsimp only
      split
      · next hasked =>
        exact ⟨_, _, rfl, hs, .inr ⟨rfl, rfl, List.contains_iff_mem.mp hasked⟩⟩
      · exact ⟨_, _, rfl, ⟨hs.build, hs.failures⟩, .inl (Nat.lt_succ_self _)⟩
  | asked location =>
    obtain ⟨hanswer, hmemo⟩ :=
      Lookup.declarationAt_agrees hanswers location s.build.lookups hs.build.memo
    rw [exec_find_asked, hanswer]
    refine ⟨_, _, rfl, ⟨⟨hmemo, hs.build.nodes, hs.build.ranked⟩, hs.failures⟩, .inl ?_⟩
    rw [FindJob.left, FindJob.left, costOf_mapError]
    exact Nat.lt_succ_self _
  | done result => exact ⟨_, _, rfl, hs, .inr ⟨rfl, rfl, trivial⟩⟩

theorem findAll_advances (hanswers : services.AnswersWith answers) (cost : Declaration → Nat)
    (uri : String) (finds : List FindJob) {s : RoundState σ}
    (hs : s.Upholds answers view known True) :
    ∃ job' s', exec (findAll services finds) s = (.ok job', s') ∧
      s'.Upholds answers view known True ∧
      Moves (LookupJob.left answers cost uri) LookupJob.Stuck (.finding finds) s job' s' := by
  have hall : ∃ finds' s', exec (moveAll (.ofCount finds.length) FindJob.result? (find services) true
      finds) s = (.ok finds', s') ∧ _ ∧
        Moves (fun finds => (finds.map (FindJob.left answers cost)).sum) _ finds s finds' s' :=
    moveAll_advances (I := fun _ s => s.Upholds answers view known True)
      (fun job _ s hs => find_advances hanswers cost job hs) true hs
  obtain ⟨finds', s', hexec, ⟨-, hs'⟩, hmoves⟩ := hall
  have hle := hmoves.le
  rw [findAll, exec_bind, hexec]
  dsimp only
  split
  · exact ⟨_, _, rfl, ⟨hs'.build, hs'.failures⟩, .inl (Nat.succ_pos _)⟩
  · next hresult =>
    refine ⟨_, _, rfl, hs', ?_⟩
    rcases hmoves with hlt | ⟨rfl, rfl, hstuck | ⟨-, error, herror⟩⟩
    · exact .inl (Nat.succ_lt_succ hlt)
    · exact .inr ⟨rfl, rfl, hstuck⟩
    · refine absurd ?_ (hresult error)
      rw [LookupJob.result?, herror]
      rfl

theorem look_advances (hanswers : services.AnswersWith answers) (cost : Declaration → Nat)
    (uri : String) (job : LookupJob) {s : RoundState σ} (hs : s.Upholds answers view known True) :
    ∃ job' s', exec (look services uri job) s = (.ok job', s') ∧
      s'.Upholds answers view known True ∧
      Moves (LookupJob.left answers cost uri) LookupJob.Stuck job s job' s' := by
  cases job with
  | fresh position => exact ⟨_, _, rfl, hs, .inl (Nat.lt_succ_self _)⟩
  | asked position =>
    let call := Lookup.call (services.resolveDefinitions uri position)
    have hanswer : (exec call s.build.lookups).1 = answers.resolveDefinitions uri position :=
      hanswers.resolveDefinitions uri position s.build.lookups.world
    have hasked : RoundState.Upholds answers view known True
        { s with build := { s.build with lookups := (exec call s.build.lookups).2 } } :=
      ⟨⟨hs.build.memo, hs.build.nodes, hs.build.ranked⟩, hs.failures⟩
    rw [look, exec_bind, exec_attempt_lookup, hanswer]
    cases hlocations : answers.resolveDefinitions uri position with
    | error failure => exact ⟨_, _, rfl, hasked, .inl (Nat.succ_pos _)⟩
    | ok locations =>
      obtain ⟨job', s', hexec, hs', hmoves⟩ :=
        findAll_advances hanswers cost uri (locations.map .waiting) hasked
      refine ⟨job', s', hexec, hs', .inl (Nat.lt_of_le_of_lt hmoves.le ?_)⟩
      rw [LookupJob.left, LookupJob.left, Answers.lookupCost, hlocations, List.map_map]
      exact Nat.lt_succ_self _
  | finding finds => exact findAll_advances hanswers cost uri finds hs
  | failed error => exact ⟨_, _, rfl, hs, .inr ⟨rfl, rfl, trivial⟩⟩

end Round

/-! ## Resolutions -/

/-- A resolution that serves its target in a state that holds its keys, besides those of `frame`. -/
structure ResolveJob.Stands (answers : Answers) (view : Declaration → Declaration)
    (known : Declaration → Prop) (keys frame : List DeclarationKey) (job : ResolveJob)
    (target : Declaration) (s : RoundState σ) : Prop where
  upholds : s.Upholds answers view known True
  isKnown : known target
  listed : target.key ∈ keys
  serves : job.Serves answers view known True target
  holds : Holds (job.claimed ++ frame) s.build.claims

/-- Resolutions of some targets, each of which stands besides the others and the keys of `chain`. -/
def AllStand (answers : Answers) (view : Declaration → Declaration) (known : Declaration → Prop)
    (keys chain : List DeclarationKey) (jobs : List ResolveJob) (s : RoundState σ) : Prop :=
  s.Upholds answers view known True ∧ ∃ targets frame,
    List.Forall₂ (ResolveJob.Serves answers view known True) jobs targets ∧
      (∀ target ∈ targets, known target ∧ target.key ∈ keys) ∧
      (∀ key ∈ chain, key ∈ frame) ∧ Holds (claimedByAll jobs ++ frame) s.build.claims

/-- Nothing of some references can be moved on, or they have failed. -/
def ReferencesJob.Rests (s : RoundState σ) (references : ReferencesJob) : Prop :=
  (references.LooksStuck s ∧ ∀ job ∈ references.jobs, job.Stuck s) ∨
    ∃ error, references.result? = some (.error error)

namespace Round

variable {depth : Nat} {chain frame : List DeclarationKey} {s s' : RoundState σ}
  (hanswers : services.AnswersWith answers) (hcon : Consistent answers view known keys)

include hanswers hcon

theorem stands_of_exec_move {job job' : ResolveJob} {target : Declaration}
    (h : job.Stands answers view known keys frame target s)
    (hexec : exec (move services depth job) s = (.ok job', s')) :
    job'.Stands answers view known keys frame target s' := by
  obtain ⟨hupholds, hserves⟩ :=
    move_serves hanswers hcon depth h.isKnown (.inr trivial) h.serves s h.upholds
  rw [hexec] at hupholds hserves
  exact ⟨hupholds, h.isKnown, h.listed, hserves,
    (move_accounts services depth job frame s h.holds job' s' hexec).1⟩

variable (hmove : ∀ job target frame s, (∀ key ∈ chain, key ∈ frame) →
  ResolveJob.Stands answers view known keys frame job target s →
    ∃ job' s', exec (move services depth job) s = (.ok job', s') ∧
      Moves (ResolveJob.left answers depth) ResolveJob.Stuck job s job' s')

include hmove

theorem resolveAll_advances (uri : String) {jobs : List ResolveJob}
    (hs : AllStand answers view known keys chain jobs s) :
    ∃ references s', exec (resolveAll (move services depth) jobs) s = (.ok references, s') ∧
      Moves (ReferencesJob.left answers depth uri) ReferencesJob.Rests (.resolving jobs) s references
        s' := by
  have hstep : ∀ job jobs s, AllStand answers view known keys chain (job :: jobs) s →
      ∃ job' s', exec (move services depth job) s = (.ok job', s') ∧
        AllStand answers view known keys chain jobs s' ∧
        Moves (ResolveJob.left answers depth) ResolveJob.Stuck job s job' s' := by
    rintro job jobs s ⟨hs, _, frame, hserves, htargets, hchain, hholds⟩
    cases hserves with
    | @cons _ target _ targets hjob hjobs =>
      rw [List.forall_mem_cons] at htargets
      rw [claimedByAll, List.append_assoc] at hholds
      have hstands : job.Stands answers view known keys (claimedByAll jobs ++ frame) target s :=
        ⟨hs, htargets.1.1, htargets.1.2, hjob, hholds⟩
      obtain ⟨job', s', hexec, hmoves⟩ := hmove job target _ s
        (fun key hkey => List.mem_append_right _ (hchain key hkey)) hstands
      have hstands' := stands_of_exec_move hanswers hcon hstands hexec
      refine ⟨job', s', hexec, ⟨hstands'.upholds, targets, job'.claimed ++ frame, hjobs, htargets.2,
        fun key hkey => List.mem_append_right _ (hchain key hkey),
        hstands'.holds.perm (List.perm_append_comm_assoc ..)⟩, hmoves⟩
  have hall : ∃ jobs' s', exec (moveAll .ordered ResolveJob.result? (move services depth) true jobs)
      s = (.ok jobs', s') ∧ _ ∧
        Moves (fun jobs => (jobs.map (ResolveJob.left answers depth)).sum) _ jobs s jobs' s' :=
    moveAll_advances (I := AllStand answers view known keys chain) hstep true hs
  obtain ⟨jobs', s', hexec, -, hmoves⟩ := hall
  refine ⟨.resolving jobs', s', by rw [resolveAll, exec_bind, hexec]; rfl, ?_⟩
  rcases hmoves with hlt | ⟨rfl, rfl, hstuck | ⟨-, herror⟩⟩
  · refine .inl ?_
    rwa [ReferencesJob.left, ReferencesJob.left, leftOfAll_eq_sum, leftOfAll_eq_sum]
  · exact .inr ⟨rfl, rfl, .inl ⟨trivial, hstuck⟩⟩
  · exact .inr ⟨rfl, rfl, .inr herror⟩

section Owned

variable {owner : Declaration} (hknown : known owner) {kind : TypeKind} {references : References}
  (hkind : owner.typeKind = .ok kind) (hreferences : owner.references? kind = some references)

include hknown hkind hreferences

theorem moveReferences_advances {positions : List Position}
    (hpositions : positions ∈ [references.superClasses, references.superInterfaces])
    {job : ReferencesJob} (hs : s.Upholds answers view known True)
    (hserves : job.Serves answers view known True owner positions)
    (hchain : ∀ key ∈ chain, key ∈ frame) (hholds : Holds (job.claimed ++ frame) s.build.claims) :
    ∃ job' s', exec (moveReferences services (move services depth) owner job) s = (.ok job', s') ∧
      Moves (ReferencesJob.left answers depth owner.uri) ReferencesJob.Rests job s job' s' := by
  cases job with
  | looking lookups =>
    rw [ReferencesJob.Serves] at hserves
    let joining := Joining.ofCount lookups.length
    have hall : ∃ lookups' s', exec (moveAll joining LookupJob.result? (look services owner.uri) true
        lookups) s = (.ok lookups', s') ∧ _ ∧
          Moves (fun lookups => (lookups.map
            (LookupJob.left answers (answers.cost depth) owner.uri)).sum) _ lookups s lookups' s' :=
      moveAll_advances (I := fun _ s => s.Upholds answers view known True)
        (fun job _ s hs => look_advances hanswers (answers.cost depth) owner.uri job hs) true hs
    obtain ⟨lookups', s', hexec, ⟨-, hs'⟩, hmoves⟩ := hall
    rw [moveReferences, exec_bind, hexec]
    dsimp only
    split
    · next found hfound =>
      have hlooked : Maintains answers view known True
          (moveAll joining LookupJob.result? (look services owner.uri) true lookups) _ :=
        moveAll_ensures (fun _ _ _ hjob => look_serves hanswers hjob) hserves
      have hserves' := (hlooked s hs).2
      rw [hexec] at hserves'
      have htargets := ReferencesJob.Serves.targets_of_lookups hserves' hfound
      have hholds' := (Accounts.of_leavesClaims (moveAll_leavesClaims
        (look_leavesClaims services owner.uri) true lookups) frame s hholds lookups' s' hexec).1
      obtain ⟨references', s'', hexec', hmoves'⟩ :=
        resolveAll_advances hanswers hcon hmove owner.uri ⟨hs', found.flatten, frame,
          forall₂_fresh_serves (.inr trivial)
            (ranksFor_of_mem_targets hcon hknown hkind hreferences hpositions htargets),
          fun _ => hcon.known_of_mem_targets htargets, hchain, by rwa [claimedByAll_fresh]⟩
      refine ⟨references', s'', hexec', .inl (Nat.lt_of_le_of_lt hmoves'.le ?_)⟩
      rw [ReferencesJob.left, ReferencesJob.left, leftOfAll_eq_sum, List.map_map]
      have hcost := sum_cost_flatten_le answers (answers.cost depth) owner.uri hfound
      exact Nat.lt_succ_of_le (Nat.le_trans hcost hmoves.le)
    · next hresult =>
      refine ⟨_, _, rfl, ?_⟩
      rcases hmoves with hlt | ⟨rfl, rfl, hstuck | ⟨-, error, herror⟩⟩
      · exact .inl (Nat.succ_lt_succ hlt)
      · refine .inr ⟨rfl, rfl, ?_⟩
        rcases hjoined : joining.result? LookupJob.result? lookups' with _ | ⟨error | found⟩
        · exact .inl ⟨⟨hstuck, hjoined⟩, by simp [ReferencesJob.jobs]⟩
        · exact .inr ⟨error, by rw [ReferencesJob.result?, hjoined]⟩
        · exact absurd hjoined (hresult found)
      · exact .inr ⟨rfl, rfl, .inr ⟨error, by rw [ReferencesJob.result?, herror]⟩⟩
  | resolving jobs =>
    rw [ReferencesJob.Serves] at hserves
    obtain ⟨targets, htargets, hjobs⟩ := hserves
    exact resolveAll_advances hanswers hcon hmove owner.uri ⟨hs, targets, frame,
      serveAll_iff_forall₂.mp hjobs, fun _ => hcon.known_of_mem_targets htargets, hchain, hholds⟩

theorem moveBuild_advances {superClasses superInterfaces : ReferencesJob}
    (hs : s.Upholds answers view known True)
    (hclasses : superClasses.Serves answers view known True owner references.superClasses)
    (hinterfaces : superInterfaces.Serves answers view known True owner references.superInterfaces)
    (hchain : ∀ key ∈ chain, key ∈ [owner.key] ++ frame)
    (hholds : Holds (superClasses.claimed ++ superInterfaces.claimed ++ [owner.key] ++ frame)
      s.build.claims) :
    ∃ job s', exec (moveBuild services (move services depth) owner superClasses superInterfaces) s =
        (.ok job, s') ∧
      Moves (ResolveJob.left answers (depth + 1)) ResolveJob.Stuck
        (.building owner superClasses superInterfaces) s job s' := by
  rw [List.append_assoc, List.append_assoc] at hholds
  obtain ⟨superClasses', s₁, hexec, hmoves⟩ := moveReferences_advances hanswers hcon hmove hknown hkind
    hreferences (by simp) hs hclasses
    (fun key hkey => List.mem_append_right _ (hchain key hkey)) hholds
  have hserves := moveReferences_serves_of_mem hanswers hcon hknown (.inr trivial)
    (fun _ _ hknown htarget hjob => move_serves hanswers hcon depth hknown htarget hjob) hkind
    hreferences (by simp) hclasses s hs
  rw [hexec] at hserves
  have hholds₁ := (moveReferences_accounts (move_accounts services depth) services owner superClasses
    _ s hholds superClasses' s₁ hexec).1
  obtain ⟨hs₁, -⟩ := hserves
  obtain ⟨superInterfaces', s₂, hexec', hmoves'⟩ := moveReferences_advances hanswers hcon hmove hknown
    hkind hreferences (by simp) hs₁ hinterfaces
    (fun key hkey => List.mem_append_right _ (hchain key hkey)) (hholds₁.perm (List.perm_append_comm_assoc ..))
  rw [moveBuild, exec_bind, hexec]
  dsimp only
  split
  · exact ⟨_, _, rfl, .inl (Nat.succ_pos _)⟩
  · next hclasses' =>
    rw [exec_bind, hexec']
    dsimp only
    split
    · exact ⟨_, _, rfl, .inl (Nat.succ_pos _)⟩
    · exact ⟨_, _, rfl, .inl (Nat.succ_pos _)⟩
    · next hfailed hboth =>
      refine ⟨_, _, rfl, ?_⟩
      have hle := hmoves'.le
      rcases hmoves with hlt | ⟨rfl, rfl, hrests⟩
      · exact .inl (Nat.succ_lt_succ (Nat.add_lt_add_of_lt_of_le hlt hle))
      · rcases hmoves' with hlt | ⟨rfl, rfl, hrests'⟩
        · exact .inl (Nat.succ_lt_succ (Nat.add_lt_add_left hlt _))
        · refine .inr ⟨rfl, rfl, ?_⟩
          obtain ⟨hlooks, hstuck⟩ := hrests.resolve_right (not_exists.mpr hclasses')
          obtain ⟨hlooks', hstuck'⟩ := hrests'.resolve_right (not_exists.mpr hfailed)
          refine .building hlooks hlooks' (List.forall_mem_append.mpr ⟨hstuck, hstuck'⟩) ?_
          rcases hresult : superClasses'.result? with _ | ⟨error | nodes⟩
          · exact .inl rfl
          · exact (hclasses' error hresult).elim
          · rcases hresult' : superInterfaces'.result? with _ | ⟨error | nodes'⟩
            · exact .inr rfl
            · exact (hfailed error hresult').elim
            · exact (hboth nodes nodes' hresult hresult').elim

end Owned

omit hanswers hcon hmove in
theorem exec_attempt_claim (key : DeclarationKey) (requester : Option DeclarationKey)
    (s : RoundState σ) :
    exec (attempt (Build.claim key requester)) s =
      match s.build.claims.claim key requester with
      | .error cycle => (.ok (.error (.cyclic cycle)), s)
      | .ok (answer, claims) => (.ok (.ok answer), { s with build := { s.build with claims := claims } }) := by
  rw [exec_attempt, Build.exec_claim]
  rcases s.build.claims.claim key requester with cycle | ⟨answer, claims⟩ <;> rfl

omit hanswers hcon hmove in
theorem exec_move_waiting (services : Services σ) (depth : Nat) (key : DeclarationKey) (ticket : Nat)
    (s : RoundState σ) :
    exec (move services (depth + 1) (.waiting key ticket)) s =
      match s.failures.get? ticket, s.build.claims.nodes.get? key with
      | some error, _ => (.ok (.done (.error error)), s)
      | none, some node => (.ok (.done (.ok node)), s)
      | none, none => (.ok (.waiting key ticket), s) := by
  rw [move, exec_bind, exec_get]
  dsimp only
  rw [exec_bind, exec_get]
  dsimp only [ClaimTable.get?]
  cases s.failures.get? ticket with
  | some error => rfl
  | none => cases s.build.claims.nodes.get? key <;> rfl

omit hmove in
/-- **A round moves a job on or finds it stuck.** By induction on the depth, which is enough for a chain
    of builds within each other, since each of them has a key of its own. -/
theorem move_advances (hroom : Room keys chain depth) (hchain : ∀ key ∈ chain, key ∈ frame)
    {job : ResolveJob} {target : Declaration}
    (hs : job.Stands answers view known keys frame target s) :
    ∃ job' s', exec (move services depth job) s = (.ok job', s') ∧
      Moves (ResolveJob.left answers depth) ResolveJob.Stuck job s job' s' := by
  induction depth generalizing chain frame job target s with
  | zero =>
    obtain ⟨_, h⟩ := hroom.exists_succ
    cases h
  | succ depth ih =>
    have hbelow : ∀ key ∈ keys, key ∉ frame → ∀ job target frame s,
        (∀ other ∈ chain ++ [key], other ∈ frame) →
          ResolveJob.Stands answers view known keys frame job target s →
            ∃ job' s', exec (move services depth job) s = (.ok job', s') ∧
              Moves (ResolveJob.left answers depth) ResolveJob.Stuck job s job' s' :=
      fun key hkey hmem _ _ _ _ hchain' hstands =>
        ih (hroom.push (fun h => hmem (hchain key h)) hkey) hchain' hstands
    have hchain' : ∀ key, ∀ other ∈ chain ++ [key], other ∈ [key] ++ frame := by
      intro key other hother
      rcases List.mem_append.mp hother with hmem | hmem
      · exact List.mem_append_right _ (hchain other hmem)
      · exact List.mem_append_left _ hmem
    have hserves := hs.serves
    cases job with
    | fresh requester declaration =>
      rw [ResolveJob.Serves] at hserves
      obtain ⟨rfl, -, hranks⟩ := hserves
      have hcost := answers.cost_pos (depth + 1) declaration
      rw [move]
      cases hkind : declaration.typeKind with
      | error error => exact ⟨_, _, rfl, .inl (Nat.lt_of_succ_lt hcost)⟩
      | ok kind =>
        have hclaimed := (attempt_claim_maintains hcon (fun _ _ => .inr trivial) hranks s hs.upholds).1
        dsimp only
        rw [exec_attempt_claim] at hclaimed
        rw [exec_bind, exec_attempt_claim]
        rcases hclaim : s.build.claims.claim declaration.key requester with
          cycle | ⟨answer, claims⟩ <;> rw [hclaim] at hclaimed
        · exact ⟨_, _, rfl, .inl (Nat.lt_of_succ_lt hcost)⟩
        · have hholds := hs.holds.claimed hclaim
          cases answer with
          | ready node => exact ⟨_, _, rfl, .inl (Nat.lt_of_succ_lt hcost)⟩
          | wait ticket => exact ⟨_, _, rfl, .inl hcost⟩
          | owner =>
            dsimp only
            cases hreferences : declaration.references? kind with
            | none => exact absurd hreferences (hcon.fits hs.isKnown hkind)
            | some references =>
              obtain ⟨job', s', hexec, hmoves⟩ := moveBuild_advances hanswers hcon
                (hbelow declaration.key hs.listed (List.nodup_cons.mp hholds.nodup).1) hs.isKnown hkind
                hreferences hclaimed (ReferencesJob.start_serves declaration _)
                (ReferencesJob.start_serves declaration _) (hchain' declaration.key) hholds
              exact ⟨job', s', hexec, .inl (Nat.lt_of_le_of_lt hmoves.le
                (left_start_lt_cost answers depth hkind hreferences))⟩
    | waiting key ticket =>
      rw [exec_move_waiting]
      cases hfailure : s.failures.get? ticket with
      | some error => exact ⟨_, _, rfl, .inl Nat.one_pos⟩
      | none =>
        cases hnode : s.build.claims.nodes.get? key with
        | some node => exact ⟨_, _, rfl, .inl Nat.one_pos⟩
        | none => exact ⟨_, _, rfl, .inr ⟨rfl, rfl, .waiting hfailure hnode⟩⟩
    | building declaration superClasses superInterfaces =>
      rw [ResolveJob.Serves] at hserves
      obtain ⟨rfl, kind, references, hkind, hreferences, hclasses, hinterfaces⟩ := hserves
      have hmem : declaration.key ∉ frame :=
        List.disjoint_of_nodup_append hs.holds.nodup (mem_claimed_building.mpr (.inl rfl))
      exact moveBuild_advances hanswers hcon (hbelow declaration.key hs.listed hmem) hs.isKnown hkind
        hreferences hs.upholds hclasses hinterfaces (hchain' declaration.key) hs.holds
    | done result => exact ⟨_, _, rfl, .inr ⟨rfl, rfl, .done⟩⟩

end Round
/-! ## All rounds -/

namespace Round

variable {depth : Nat}

/-- **Rounds come to an end.** A resolution that nothing else interferes with is done after as many
    rounds as there are steps left in it. -/
theorem moveUntilDone_ends (hanswers : services.AnswersWith answers)
    (hcon : Consistent answers view known keys) (hdepth : keys.length < depth) {rounds : Nat}
    {job : ResolveJob} {target : Declaration} {s : RoundState σ}
    (hrounds : job.left answers depth < rounds)
    (hs : job.Stands answers view known keys [] target s) (hlinked : job.Linked s none) :
    ∃ result s', exec (moveUntilDone services depth rounds job) s = (.ok result, s') := by
  induction rounds generalizing job s with
  | zero => exact absurd hrounds (Nat.not_lt_zero _)
  | succ rounds ih =>
    have hs' : job.Stands answers view known keys [] target { s with asked := job.awaited } :=
      ⟨⟨hs.upholds.build, hs.upholds.failures⟩, hs.isKnown, hs.listed, hs.serves, hs.holds⟩
    have hlinked' : job.Linked { s with asked := job.awaited } none :=
      hlinked.keeps (by simp) (fun _ hkey => hkey) (.of_eq rfl rfl)
    obtain ⟨job', s', hexec, hmoves⟩ :=
      move_advances hanswers hcon (Room.nil hdepth) (by simp) hs'
    rw [moveUntilDone, exec_bind, exec_modify]
    dsimp only
    rw [exec_bind, hexec]
    dsimp only
    cases hresult : job'.result? with
    | some result => exact ⟨result, s', rfl⟩
    | none =>
      rcases hmoves with hlt | ⟨rfl, rfl, hstuck⟩
      · exact ih (Nat.lt_of_lt_of_le hlt (Nat.le_of_lt_succ hrounds))
          (stands_of_exec_move hanswers hcon hs' hexec)
          (move_links services depth job none [] _ (by simp) hs'.holds hlinked' job' s' hexec)
      · have hholds : Holds job'.claimed s.build.claims := by simpa using hs.holds
        exact absurd hresult (hstuck.result?_ne_none hlinked' hholds rfl)

end Round

namespace Build

variable {s : BuildState σ} {root : Declaration}

/-- A resolution over services that answer later comes to a node or fails, if only the rounds are
    enough. -/
theorem resolveInRounds_settled (hanswers : services.AnswersWith answers)
    (hcon : Consistent answers view known keys)
    (hlength : keys.length ≤ services.declarationKeys.length + 1)
    (hs : Upholds answers view known s) (hidle : s.claims.inFlight = []) (hknown : known root)
    (hkey : root.key ∈ keys) {rounds : Nat}
    (hrounds : answers.cost (depthBound services) root < rounds) :
    Settled (exec (resolveInRounds services rounds root) s).1 := by
  have hdepth : keys.length < depthBound services := by
    rw [depthBound]
    omega
  have hstands : (ResolveJob.fresh none root).Stands answers view known keys [] root
      ⟨s, [], []⟩ := by
    refine ⟨⟨hs, by rintro _ _ ⟨⟩⟩, hknown, hkey, ?_, .of_inFlight_eq_nil hidle⟩
    rw [ResolveJob.Serves]
    exact ⟨rfl, by simp, by rintro _ ⟨⟩⟩
  obtain ⟨result, s', hexec⟩ :=
    Round.moveUntilDone_ends hanswers hcon hdepth hrounds hstands .fresh
  rw [exec_resolveInRounds, hexec]
  rcases result with error | node <;> rintro _ ⟨⟩
  exact ⟨error, rfl⟩

end Build
end Lineage
