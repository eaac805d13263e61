import Lineage.Proofs.Hierarchy.Holding

set_option autoImplicit false

/-! # Resolutions that wait for each other

While resolutions are interleaved, some wait for what others build. The table of claims knows of all this
waiting: a job that waits, or builds, for a requester is among the dependencies of that requester
(`Linked`). A round keeps it so (`move_links`), whatever the other jobs do meanwhile.

Dependencies never form a circle. So a resolution of which no part can be moved on is over
(`ResolveJob.Stuck.result?_ne_none`). -/

namespace Lineage

open ClaimTable (DependsOn)

variable {σ : Type} {s s' : RoundState σ} {requester : Option DeclarationKey} {job : ResolveJob}

/-! ## Jobs within jobs -/

/-- The resolutions of what some references refer to, as far as that is known. -/
def ReferencesJob.jobs : ReferencesJob → List ResolveJob
  | .looking _ => []
  | .resolving jobs => jobs

theorem mem_claimedByAll {jobs : List ResolveJob} {key : DeclarationKey} :
    key ∈ claimedByAll jobs ↔ ∃ job ∈ jobs, key ∈ job.claimed := by
  induction jobs with
  | nil => simp [claimedByAll]
  | cons job jobs ih => simp [claimedByAll, ih]

theorem ReferencesJob.mem_claimed {references : ReferencesJob} {key : DeclarationKey} :
    key ∈ references.claimed ↔ ∃ job ∈ references.jobs, key ∈ job.claimed := by
  cases references with
  | looking lookups => simp [claimed, jobs]
  | resolving targets => exact mem_claimedByAll

/-- The keys claimed within a build are its own and those that its parts have claimed. -/
theorem mem_claimed_building {declaration : Declaration} {superClasses superInterfaces : ReferencesJob}
    {key : DeclarationKey} :
    key ∈ (ResolveJob.building declaration superClasses superInterfaces).claimed ↔
      key = declaration.key ∨
        ∃ job ∈ superClasses.jobs ++ superInterfaces.jobs, key ∈ job.claimed := by
  rw [ResolveJob.claimed, List.mem_append, List.mem_append, List.mem_singleton,
    ReferencesJob.mem_claimed, ReferencesJob.mem_claimed]
  simp only [List.mem_append, or_and_right, exists_or]
  exact or_comm

/-! ## Links -/

/-- A job made for a requester is linked if this depends on what the job waits for or builds, and so on
    for all jobs within. -/
inductive ResolveJob.Linked (s : RoundState σ) : Option DeclarationKey → ResolveJob → Prop where
  | fresh {requester : Option DeclarationKey} {declaration : Declaration} :
      Linked s requester (.fresh requester declaration)
  | waiting {requester : Option DeclarationKey} {key : DeclarationKey} {ticket : Nat} :
      s.Awaits requester key ticket → Linked s requester (.waiting key ticket)
  | building {requester : Option DeclarationKey} {declaration : Declaration}
      {superClasses superInterfaces : ReferencesJob} :
      (∀ holder ∈ requester, DependsOn s.build.claims.inFlight holder declaration.key) →
      (∀ job ∈ superClasses.jobs ++ superInterfaces.jobs, Linked s (some declaration.key) job) →
      Linked s requester (.building declaration superClasses superInterfaces)
  | done {requester : Option DeclarationKey} {result : Except ResolveError TypeNode} :
      Linked s requester (.done result)

theorem ResolveJob.linked_building_iff {declaration : Declaration}
    {superClasses superInterfaces : ReferencesJob} :
    Linked s requester (.building declaration superClasses superInterfaces) ↔
      (∀ holder ∈ requester, DependsOn s.build.claims.inFlight holder declaration.key) ∧
        (∀ job ∈ superClasses.jobs, job.Linked s (some declaration.key)) ∧
        ∀ job ∈ superInterfaces.jobs, job.Linked s (some declaration.key) := by
  rw [← List.forall_mem_append]
  constructor
  · intro h
    cases h with
    | building hdepends hjobs => exact ⟨hdepends, hjobs⟩
  · rintro ⟨hdepends, hjobs⟩
    exact .building hdepends hjobs

/-- A job stays linked while others are moved on. -/
theorem ResolveJob.Linked.keeps {frame : List DeclarationKey} (h : job.Linked s requester)
    (hrequester : ∀ holder ∈ requester, holder ∈ frame) (hclaimed : ∀ key ∈ job.claimed, key ∈ frame)
    (hkeeps : s.Keeps frame s') : job.Linked s' requester := by
  induction h with
  | fresh => exact .fresh
  | waiting hawaits => exact .waiting (hkeeps.awaits hrequester hawaits)
  | @building requester declaration superClasses superInterfaces hdepends _ ih =>
    have hkey : declaration.key ∈ frame := hclaimed _ (mem_claimed_building.mpr (.inl rfl))
    refine .building (fun holder hholder =>
      hkeeps.depends (hrequester holder hholder) hkey (hdepends holder hholder)) ?_
    intro job hjob
    refine ih job hjob (by rintro _ ⟨⟩; exact hkey) fun key hmem => ?_
    exact hclaimed key (mem_claimed_building.mpr (.inr ⟨job, hjob, hmem⟩))
  | done => exact .done

namespace Round

variable {α β : Type}

/-- A part of a round that, done for a requester, leads from what is known `before` to what is known
    `after`, whatever is held besides `held` as long as it includes the requester. -/
def Links (requester : Option DeclarationKey) (held : List DeclarationKey)
    (before : RoundState σ → Prop) (action : Round σ α) (after : α → RoundState σ → Prop) : Prop :=
  ∀ frame s, (∀ holder ∈ requester, holder ∈ frame) → Holds (held ++ frame) s.build.claims →
    before s → ∀ a s', exec action s = (.ok a, s') → after a s'

namespace Links

variable {held : List DeclarationKey} {before : RoundState σ → Prop} {action : Round σ α}
  {after : α → RoundState σ → Prop}

theorem pure {a : α} (h : ∀ s, before s → after a s) :
    Links requester held before (Pure.pure a) after := by
  rintro frame s - - hs _ _ ⟨⟩
  exact h s hs

theorem trivial (action : Round σ α) : Links requester held before action fun _ _ => True :=
  fun _ _ _ _ _ _ _ _ => True.intro

theorem throw (halt : Halt) : Links requester held before (throw halt : Round σ α) after := by
  rintro frame s - - - _ _ ⟨⟩

theorem bind {middle : α → List DeclarationKey} {known : α → RoundState σ → Prop}
    {f : α → Round σ β} {after : β → RoundState σ → Prop} (haccounts : Accounts held action middle)
    (haction : Links requester held before action known)
    (hf : ∀ a, Links requester (middle a) (known a) (f a) after) :
    Links requester held before (action >>= f) after := by
  intro frame s hrequester hs hbefore b s'' hout
  rw [exec_bind] at hout
  rcases hfirst : exec action s with ⟨halt | a, s'⟩ <;> rw [hfirst] at hout
  · cases hout
  · exact hf a frame s' hrequester (haccounts frame s hs a s' hfirst).1
      (haction frame s hrequester hs hbefore a s' hfirst) b s'' hout

theorem conseq {before' : RoundState σ → Prop} {after' : α → RoundState σ → Prop}
    (h : Links requester held before action after) (hbefore : ∀ s, before' s → before s)
    (hafter : ∀ a s, after a s → after' a s) : Links requester held before' action after' :=
  fun frame s hrequester hs hbefore' a s' hout =>
    hafter a s' (h frame s hrequester hs (hbefore s hbefore') a s' hout)

/-- What is known as long as other keys are held stays known. -/
theorem frame {inner : Option DeclarationKey} {middle : α → List DeclarationKey}
    {other whole : List DeclarationKey} {known : RoundState σ → Prop}
    (h : Links inner held before action after) (haccounts : Accounts held action middle)
    (hwhole : whole.Perm (held ++ other))
    (hinner : ∀ holder ∈ inner, holder ∈ other ∨ holder ∈ requester)
    (hknown : ∀ frame s s', (∀ holder ∈ requester, holder ∈ frame) → (∀ key ∈ other, key ∈ frame) →
      s.Keeps frame s' → known s → known s') :
    Links requester whole (fun s => before s ∧ known s) action fun a s => after a s ∧ known s := by
  intro frame s hrequester hs hbefore a s' hout
  have hs' : Holds (held ++ (other ++ frame)) s.build.claims := by
    rw [← List.append_assoc]
    exact hs.perm (hwhole.append_right frame)
  have hrequester' : ∀ holder ∈ requester, holder ∈ other ++ frame :=
    fun holder hholder => List.mem_append_right _ (hrequester holder hholder)
  have hinner' : ∀ holder ∈ inner, holder ∈ other ++ frame := fun holder hholder =>
    (hinner holder hholder).elim (List.mem_append_left _) (hrequester' holder)
  have hkeeps := (haccounts (other ++ frame) s hs' a s' hout).2
  exact ⟨h (other ++ frame) s hinner' hs' hbefore.1 a s' hout,
    hknown (other ++ frame) s s' hrequester' (fun _ => List.mem_append_left _) hkeeps hbefore.2⟩

end Links

/-! ## One round -/

/-- All resolutions of what `owner` refers to are linked. -/
abbrev AllLinked (owner : DeclarationKey) (jobs : List ResolveJob) (s : RoundState σ) : Prop :=
  ∀ job ∈ jobs, job.Linked s (some owner)

section Builds

variable {move : ResolveJob → Round σ ResolveJob} {owner : DeclarationKey}
  (haccounts : ∀ job, Accounts job.claimed (move job) ResolveJob.claimed)
  (hmove : ∀ job requester, Links requester job.claimed (job.Linked · requester) (move job)
    fun job' s => job'.Linked s requester)

include haccounts hmove

theorem moveAll_links {joining : Joining}
    {result? : ResolveJob → Option (Except ResolveError TypeNode)} (settled : Bool)
    (jobs : List ResolveJob) :
    Links (some owner) (claimedByAll jobs) (AllLinked owner jobs)
      (moveAll joining result? move settled jobs) (AllLinked owner) := by
  induction jobs generalizing settled with
  | nil => exact .pure fun s _ => by simp [AllLinked]
  | cons job jobs ih =>
    have hrest : ∀ (job' : ResolveJob) settled, Links (some owner)
        (job'.claimed ++ claimedByAll jobs)
        (fun s => job'.Linked s (some owner) ∧ AllLinked owner jobs s)
        (do return job' :: (← moveAll joining result? move settled jobs)) (AllLinked owner) := by
      intro job' settled
      have hjobs : Accounts (claimedByAll jobs) (moveAll joining result? move settled jobs)
          claimedByAll := moveAll_accounts haccounts settled jobs
      refine .bind (hjobs.frame_left job'.claimed) (((ih settled).frame hjobs
        List.perm_append_comm (by simp) ?_).conseq (fun s h => ⟨h.2, h.1⟩) fun _ _ h => h) ?_
      · exact fun frame s s' howner hclaimed hkeeps h => h.keeps howner hclaimed hkeeps
      · exact fun jobs' => .pure fun s h => List.forall_mem_cons.mpr ⟨h.2, h.1⟩
    rw [claimedByAll, moveAll]
    refine .bind ((haccounts job).frame (claimedByAll jobs)) (((hmove job (some owner)).frame
      (haccounts job) (.refl _) (by simp) ?_).conseq
        (fun s h => List.forall_mem_cons.mp h) fun _ _ h => h) fun job' => ?_
    · intro frame s s' howner hclaimed hkeeps h other hother
      exact (h other hother).keeps howner
        (fun key hkey => hclaimed key (mem_claimedByAll.mpr ⟨other, hother, hkey⟩)) hkeeps
    · split
      · exact hrest job' settled
      · split
        · exact .pure fun s h => List.forall_mem_cons.mpr h
        · exact hrest job' settled
      · exact hrest job' false

theorem resolveAll_links (jobs : List ResolveJob) :
    Links (some owner) (claimedByAll jobs) (AllLinked owner jobs) (resolveAll move jobs)
      fun references => AllLinked owner references.jobs :=
  .bind (moveAll_accounts haccounts true jobs) (moveAll_links haccounts hmove true jobs)
    fun _ => .pure fun _ h => h

theorem moveReferences_links (services : Services σ) {declaration : Declaration}
    (hkey : declaration.key = owner) (references : ReferencesJob) :
    Links (some owner) references.claimed (AllLinked owner references.jobs)
      (moveReferences services move declaration references)
      fun references' => AllLinked owner references'.jobs := by
  subst hkey
  cases references with
  | looking lookups =>
    rw [moveReferences]
    refine .bind (.of_leavesClaims (moveAll_leavesClaims (look_leavesClaims services declaration.uri)
      true lookups)) (.trivial _) fun lookups' => ?_
    split
    · next found _ =>
      have hfresh : Links (some declaration.key)
          (claimedByAll (found.flatten.map (.fresh (some declaration.key)))) _ _ _ :=
        resolveAll_links haccounts hmove (found.flatten.map (.fresh (some declaration.key)))
      rw [claimedByAll_fresh] at hfresh
      refine hfresh.conseq (fun s _ job hjob => ?_) fun _ _ h => h
      obtain ⟨target, -, rfl⟩ := List.mem_map.mp hjob
      exact .fresh
    · exact .pure fun s _ => by simp [AllLinked, ReferencesJob.jobs]
  | resolving jobs => exact resolveAll_links haccounts hmove jobs

/-- While one of the two lists of references is moved on, the other one stays linked. -/
theorem moveReferences_links_beside (services : Services σ) (declaration : Declaration)
    (references beside : ReferencesJob) {whole : List DeclarationKey}
    (hwhole : whole.Perm (references.claimed ++ (beside.claimed ++ [declaration.key]))) :
    Links requester whole
      (fun s => AllLinked declaration.key references.jobs s ∧
        (∀ holder ∈ requester, DependsOn s.build.claims.inFlight holder declaration.key) ∧
        AllLinked declaration.key beside.jobs s)
      (moveReferences services move declaration references)
      fun references' s => AllLinked declaration.key references'.jobs s ∧
        (∀ holder ∈ requester, DependsOn s.build.claims.inFlight holder declaration.key) ∧
        AllLinked declaration.key beside.jobs s := by
  refine (moveReferences_links haccounts hmove services rfl references).frame
    (moveReferences_accounts haccounts services declaration references) hwhole (by simp) ?_
  rintro frame s s' hrequester hother hkeeps ⟨hdepends, hlinked⟩
  have hkey : declaration.key ∈ frame := hother _ (by simp)
  refine ⟨fun holder hholder =>
    hkeeps.depends (hrequester holder hholder) hkey (hdepends holder hholder), ?_⟩
  intro job hjob
  refine (hlinked job hjob).keeps (by rintro _ ⟨⟩; exact hkey) (fun key hmem => ?_) hkeeps
  exact hother key (List.mem_append_left _ (ReferencesJob.mem_claimed.mpr ⟨job, hjob, hmem⟩))

omit haccounts hmove in
theorem succeed_links (declaration : Declaration) (superClasses superInterfaces : List TypeNode)
    {held : List DeclarationKey} {before : RoundState σ → Prop} :
    Links requester held before (succeed declaration superClasses superInterfaces : Round σ ResolveJob)
      fun job s => job.Linked s requester := by
  rintro frame s - - - _ _ ⟨⟩
  exact .done

omit haccounts hmove in
theorem fail_links (declaration : Declaration) (superClasses superInterfaces : ReferencesJob)
    (error : ResolveError) {held : List DeclarationKey} {before : RoundState σ → Prop} :
    Links requester held before
      (fail declaration superClasses superInterfaces error : Round σ ResolveJob)
      fun job s => job.Linked s requester := by
  rintro frame s - - - _ _ ⟨⟩
  exact .done

theorem moveBuild_links (services : Services σ) (declaration : Declaration)
    (superClasses superInterfaces : ReferencesJob) :
    Links requester (superClasses.claimed ++ superInterfaces.claimed ++ [declaration.key])
      (ResolveJob.Linked · requester (.building declaration superClasses superInterfaces))
      (moveBuild services move declaration superClasses superInterfaces)
      fun job s => job.Linked s requester := by
  have hclasses : Links requester
      (superClasses.claimed ++ superInterfaces.claimed ++ [declaration.key])
      (ResolveJob.Linked · requester (.building declaration superClasses superInterfaces))
      (moveReferences services move declaration superClasses)
      fun superClasses' s =>
        ResolveJob.Linked s requester (.building declaration superClasses' superInterfaces) := by
    refine (moveReferences_links_beside haccounts hmove services declaration superClasses
      superInterfaces (.of_eq (List.append_assoc ..))).conseq (fun s h => ?_) fun superClasses' s h => ?_
    · obtain ⟨hdepends, hclasses, hinterfaces⟩ := ResolveJob.linked_building_iff.mp h
      exact ⟨hclasses, hdepends, hinterfaces⟩
    · exact ResolveJob.linked_building_iff.mpr ⟨h.2.1, h.1, h.2.2⟩
  have hinterfaces : ∀ superClasses' : ReferencesJob, Links requester
      (superClasses'.claimed ++ superInterfaces.claimed ++ [declaration.key])
      (ResolveJob.Linked · requester (.building declaration superClasses' superInterfaces))
      (moveReferences services move declaration superInterfaces)
      fun superInterfaces' s =>
        ResolveJob.Linked s requester (.building declaration superClasses' superInterfaces') := by
    intro superClasses'
    refine (moveReferences_links_beside haccounts hmove services declaration superInterfaces
      superClasses' ?_).conseq (fun s h => ?_) fun superInterfaces' s h => ?_
    · rw [← List.append_assoc]
      exact List.perm_append_comm.append_right _
    · obtain ⟨hdepends, hclasses, hinterfaces⟩ := ResolveJob.linked_building_iff.mp h
      exact ⟨hinterfaces, hdepends, hclasses⟩
    · exact ResolveJob.linked_building_iff.mpr ⟨h.2.1, h.2.2, h.1⟩
  rw [moveBuild]
  refine .bind (((moveReferences_accounts haccounts services declaration superClasses).frame
    superInterfaces.claimed).frame [declaration.key]) hclasses fun superClasses' => ?_
  split
  · exact fail_links declaration superClasses' superInterfaces _
  · refine .bind (((moveReferences_accounts haccounts services declaration
      superInterfaces).frame_left superClasses'.claimed).frame [declaration.key])
      (hinterfaces superClasses') fun superInterfaces' => ?_
    split
    · exact fail_links declaration superClasses' superInterfaces' _
    · exact succeed_links declaration _ _
    · exact .pure fun s h => h

end Builds

/-- A claim that is not refused makes its requester depend on what is then waited for or built. -/
theorem attempt_claim_links (key : DeclarationKey) (requester : Option DeclarationKey) :
    Links requester [] (fun _ => True)
      (attempt (Build.claim key requester) : Round σ (Except ResolveError (Claim TypeNode)))
      fun answer s => match answer with
        | .ok (.wait ticket) => s.Awaits requester key ticket
        | .ok .owner => ∀ holder ∈ requester, DependsOn s.build.claims.inFlight holder key
        | _ => True := by
  intro frame s hrequester hs _ answer s' hout
  have hholder : ∀ holder ∈ requester, holder ∈ s.build.claims.inFlight.keys :=
    fun holder hholder => (hs.mem_iff holder).mp (hrequester holder hholder)
  have hnoted : ∀ holder ∈ requester,
      DependsOn (s.build.claims.noteRequest key requester).inFlight holder key :=
    fun holder hmem =>
      ClaimTable.dependsOn_noteRequest_iff.mpr (.inr ⟨hmem, hholder holder hmem, rfl⟩)
  rw [exec_attempt, Build.exec_claim] at hout
  rcases hclaim : s.build.claims.claim key requester with cycle | ⟨answer', claims⟩ <;>
    rw [hclaim] at hout <;> cases hout
  · trivial
  · cases ClaimTable.grants_of_claim hclaim with
    | ready => trivial
    | wait _ _ hticket =>
      exact .inr (.inr ⟨(ClaimTable.ticket?_noteRequest _ _ _ _).trans hticket, hnoted⟩)
    | owner _ _ hfree =>
      intro holder hmem
      refine ClaimTable.dependsOn_takeOff_iff.mpr ⟨?_, hnoted holder hmem⟩
      rintro rfl
      have hflight := hholder key hmem
      rw [ClaimTable.mem_keys_iff_ticket?, hfree] at hflight
      cases hflight

/-- **A round keeps a job linked.** -/
theorem move_links (services : Services σ) (depth : Nat) (job : ResolveJob)
    (requester : Option DeclarationKey) :
    Links requester job.claimed (job.Linked · requester) (move services depth job)
      fun job' s => job'.Linked s requester := by
  induction depth generalizing job requester with
  | zero => exact .throw _
  | succ depth ih =>
    cases job with
    | fresh holder declaration =>
      by_cases heq : holder = requester
      · subst heq
        rw [move]
        cases declaration.typeKind with
        | error error => exact .pure fun _ _ => .done
        | ok kind =>
          refine .bind (attempt_claim_accounts declaration.key holder)
            ((attempt_claim_links declaration.key holder).conseq (fun _ _ => trivial)
              fun _ _ h => h) fun answer => ?_
          rcases answer with error | answer
          · exact .pure fun _ _ => .done
          · cases answer with
            | ready node => exact .pure fun _ _ => .done
            | wait ticket => exact .pure fun _ h => .waiting h
            | owner =>
              dsimp only
              cases declaration.references? kind with
              | none => exact .throw _
              | some references =>
                refine (moveBuild_links (move_accounts services depth) ih services declaration
                  (.start references.superClasses) (.start references.superInterfaces)).conseq
                  (fun s h => ?_) fun _ _ h => h
                exact .building h (by simp [ReferencesJob.start, ReferencesJob.jobs])
      · intro frame s _ _ hlinked
        cases hlinked
        exact absurd rfl heq
    | waiting key ticket =>
      intro frame s _ _ hlinked job' s' hout
      rw [move, exec_bind, exec_get] at hout
      dsimp only at hout
      rw [exec_bind, exec_get] at hout
      dsimp only at hout
      split at hout <;> cases hout
      · exact .done
      · exact .done
      · exact hlinked
    | building declaration superClasses superInterfaces =>
      exact moveBuild_links (move_accounts services depth) ih services declaration superClasses
        superInterfaces
    | done result => exact .pure fun s h => h

end Round

/-! ## Jobs that cannot be moved on -/

/-- The search is over, or it waits for what has been asked. -/
def FindJob.Stuck (s : RoundState σ) : FindJob → Prop
  | .waiting location => location ∈ s.asked
  | .asked _ => False
  | .done _ => True

def LookupJob.Stuck (s : RoundState σ) : LookupJob → Prop
  | .fresh _ => False
  | .asked _ => False
  | .finding finds => ∀ find ∈ finds, find.Stuck s
  | .failed _ => True

/-- If anything is still looked up, it cannot be moved on. -/
def ReferencesJob.LooksStuck (s : RoundState σ) : ReferencesJob → Prop
  | .looking lookups => (∀ lookup ∈ lookups, lookup.Stuck s) ∧
      (Joining.ofCount lookups.length).result? LookupJob.result? lookups = none
  | .resolving _ => True

/-- No part of the resolution can be moved on. -/
inductive ResolveJob.Stuck (s : RoundState σ) : ResolveJob → Prop where
  | waiting {key : DeclarationKey} {ticket : Nat} :
      s.failures.get? ticket = none → s.build.claims.nodes.get? key = none →
      Stuck s (.waiting key ticket)
  | building {declaration : Declaration} {superClasses superInterfaces : ReferencesJob} :
      superClasses.LooksStuck s → superInterfaces.LooksStuck s →
      (∀ job ∈ superClasses.jobs ++ superInterfaces.jobs, Stuck s job) →
      superClasses.result? = none ∨ superInterfaces.result? = none →
      Stuck s (.building declaration superClasses superInterfaces)
  | done {result : Except ResolveError TypeNode} : Stuck s (.done result)

theorem LookupJob.Stuck.awaited_eq_nil {lookup : LookupJob} (h : lookup.Stuck s) :
    lookup.awaited = [] := by
  cases lookup with
  | finding finds =>
    rw [LookupJob.awaited, List.filterMap_eq_nil_iff]
    intro find hfind
    have hstuck := h find hfind
    cases find with
    | asked location => exact hstuck.elim
    | _ => rfl
  | _ => rfl

theorem awaitedByAll_eq_nil {jobs : List ResolveJob} (h : ∀ job ∈ jobs, job.awaited = []) :
    awaitedByAll jobs = [] := by
  induction jobs with
  | nil => rfl
  | cons job jobs ih =>
    rw [List.forall_mem_cons] at h
    rw [awaitedByAll, h.1, ih h.2, List.append_nil]

theorem ReferencesJob.LooksStuck.awaited_eq_nil {references : ReferencesJob}
    (h : references.LooksStuck s) (hjobs : ∀ job ∈ references.jobs, job.awaited = []) :
    references.awaited = [] := by
  cases references with
  | looking lookups =>
    rw [awaited, List.flatMap_eq_nil_iff]
    exact fun lookup hlookup => (h.1 lookup hlookup).awaited_eq_nil
  | resolving jobs => exact awaitedByAll_eq_nil hjobs

/-- Who awaits an answer can be moved on. -/
theorem ResolveJob.Stuck.awaited_eq_nil (h : job.Stuck s) : job.awaited = [] := by
  induction h with
  | building hclasses hinterfaces _ _ ih =>
    rw [List.forall_mem_append] at ih
    rw [ResolveJob.awaited, hclasses.awaited_eq_nil ih.1, hinterfaces.awaited_eq_nil ih.2,
      List.append_nil]
  | _ => rfl

/-- Where no answer is awaited, what is still to be resolved has a part that is. -/
theorem ReferencesJob.LooksStuck.exists_pending {references : ReferencesJob}
    (h : references.LooksStuck s) (hasked : s.asked = []) (hresult : references.result? = none) :
    ∃ job ∈ references.jobs, job.result? = none := by
  cases references with
  | looking lookups =>
    obtain ⟨lookup, hlookup, hpending⟩ := Joining.exists_of_result?_eq_none h.2
    have hstuck := h.1 lookup hlookup
    cases lookup with
    | finding finds =>
      obtain ⟨find, hfind, hnone⟩ :=
        Joining.exists_of_result?_eq_none (Option.map_eq_none_iff.mp hpending)
      have hfound := hstuck find hfind
      cases find with
      | waiting location =>
        rw [FindJob.Stuck, hasked] at hfound
        cases hfound
      | asked location => exact hfound.elim
      | done result => cases hnone
    | failed error => cases hpending
    | _ => exact hstuck.elim
  | resolving jobs => exact Joining.exists_of_result?_eq_none hresult

/-- Who waits in vain waits for what is in flight. -/
theorem RoundState.Awaits.depends {key : DeclarationKey} {ticket : Nat}
    (h : s.Awaits requester key ticket) (hfailure : s.failures.get? ticket = none)
    (hnode : s.build.claims.nodes.get? key = none) :
    key ∈ s.build.claims.inFlight.keys ∧
      ∀ holder ∈ requester, DependsOn s.build.claims.inFlight holder key := by
  rcases h with hfailed | hbuilt | ⟨hticket, hdepends⟩
  · exact absurd hfailure hfailed
  · exact absurd hnode hbuilt
  · refine ⟨?_, hdepends⟩
    rw [ClaimTable.mem_keys_iff_ticket?, hticket]
    rfl

/-- Where no answer is awaited, every resolution that cannot be moved on depends on another one. -/
theorem ResolveJob.Stuck.exists_dependsOn (h : job.Stuck s) (hlinked : job.Linked s requester)
    (hasked : s.asked = [])
    (hflight : ∀ key ∈ job.claimed, key ∈ s.build.claims.inFlight.keys) :
    ∀ key ∈ job.claimed, ∃ next ∈ s.build.claims.inFlight.keys,
      DependsOn s.build.claims.inFlight key next := by
  induction h generalizing requester with
  | @building declaration superClasses superInterfaces hclasses hinterfaces hstuck hpending ih =>
    cases hlinked with
    | building _ hjobs =>
      intro key hkey
      rcases mem_claimed_building.mp hkey with rfl | ⟨job, hjob, hmem⟩
      · obtain ⟨job, hjob, hnone⟩ :
            ∃ job ∈ superClasses.jobs ++ superInterfaces.jobs, job.result? = none := by
          rcases hpending with hresult | hresult
          · obtain ⟨job, hjob, hnone⟩ := hclasses.exists_pending hasked hresult
            exact ⟨job, List.mem_append_left _ hjob, hnone⟩
          · obtain ⟨job, hjob, hnone⟩ := hinterfaces.exists_pending hasked hresult
            exact ⟨job, List.mem_append_right _ hjob, hnone⟩
        cases hstuck job hjob with
        | waiting hfailure hnode =>
          cases hjobs _ hjob with
          | waiting hawaits =>
            obtain ⟨hkey, hdepends⟩ := hawaits.depends hfailure hnode
            exact ⟨_, hkey, hdepends _ rfl⟩
        | @building inner _ _ _ _ _ _ =>
          cases hjobs _ hjob with
          | building hdepends _ =>
            refine ⟨inner.key, hflight inner.key ?_, hdepends _ rfl⟩
            exact mem_claimed_building.mpr
              (.inr ⟨_, hjob, mem_claimed_building.mpr (.inl rfl)⟩)
        | done => cases hnone
      · refine ih job hjob (hjobs job hjob) (fun other hother => ?_) key hmem
        exact hflight other (mem_claimed_building.mpr (.inr ⟨job, hjob, hother⟩))
  | _ => simp [ResolveJob.claimed]

/-- **Nothing waits in vain.** A resolution of which no part can be moved on is over. -/
theorem ResolveJob.Stuck.result?_ne_none (h : job.Stuck s) (hlinked : job.Linked s none)
    (hholds : Holds job.claimed s.build.claims) (hasked : s.asked = job.awaited) :
    job.result? ≠ none := by
  have hnone : s.asked = [] := hasked.trans h.awaited_eq_nil
  have hdepends := h.exists_dependsOn hlinked hnone fun key hkey => (hholds.mem_iff key).mp hkey
  cases h with
  | waiting hfailure hnode =>
    cases hlinked with
    | waiting hawaits =>
      obtain ⟨hkey, -⟩ := hawaits.depends hfailure hnode
      exact absurd ((hholds.mem_iff _).mpr hkey) List.not_mem_nil
  | @building declaration _ _ _ _ _ _ =>
    have hkey := (hholds.mem_iff declaration.key).mp (mem_claimed_building.mpr (.inl rfl))
    have hflight : s.build.claims.inFlight ≠ [] := by
      intro hempty
      rw [hempty] at hkey
      cases hkey
    obtain ⟨holder, hholder, hleast⟩ := hholds.ordered.exists_waiting_for_none hflight
    obtain ⟨next, hnext, hstep⟩ := hdepends holder ((hholds.mem_iff holder).mpr hholder)
    exact absurd hstep (hleast next hnext)
  | done => exact Option.some_ne_none _

end Lineage
