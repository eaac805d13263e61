import Lineage.Proofs.Claim.Progress
import Lineage.Proofs.Hierarchy.Interleaving

set_option autoImplicit false

/-! # What interleaved resolutions hold

A claim that is never given back blocks its key for the rest of the pass. So the keys in flight have to
be those that some job still works at, and none when a resolution has ended, with a node, with a failure
or cut off (`inFlight_resolveInRounds`). This holds over any services, whatever they answer.

The keys of all jobs are accounted for as one list (`Holds`). What a part of a round does to the keys of
its own job it does whatever else is held, and what other jobs rely on it keeps (`Accounts`). So jobs
next to each other can be looked at one by one. -/

namespace Lineage

open ClaimTable (DependsOn)

variable {σ : Type} {services : Services σ} {held other : List DeclarationKey}

/-! ## Keys in flight -/

theorem ClaimTable.inFlight_eq_nil {table : ClaimTable TypeNode}
    (h : ∀ key, key ∉ table.inFlight.keys) : table.inFlight = [] := by
  have hkeys : table.inFlight.map Prod.fst = [] := List.eq_nil_iff_forall_not_mem.mpr h
  exact List.map_eq_nil_iff.mp hkeys

/-- The keys in flight, each once, with dependencies that never form a circle. -/
structure Holds (held : List DeclarationKey) (table : ClaimTable TypeNode) : Prop where
  nodup : held.Nodup
  mem_iff : ∀ key, key ∈ held ↔ key ∈ table.inFlight.keys
  ordered : table.Ordered

namespace Holds

variable {table after : ClaimTable TypeNode} {key : DeclarationKey}

theorem perm (h : Holds held table) (hperm : held.Perm other) : Holds other table where
  nodup := hperm.nodup_iff.mp h.nodup
  mem_iff key := hperm.mem_iff.symm.trans (h.mem_iff key)
  ordered := h.ordered

theorem of_inFlight_eq_nil (h : table.inFlight = []) : Holds [] table where
  nodup := List.nodup_nil
  mem_iff key := by simp [h, Assoc.keys]
  ordered := ClaimTable.ordered_of_inFlight_eq_nil h

theorem inFlight_eq_nil (h : Holds [] table) : table.inFlight = [] :=
  ClaimTable.inFlight_eq_nil fun key hmem => List.not_mem_nil ((h.mem_iff key).mpr hmem)

/-- A key that is claimed is held from then on, another one is not. -/
theorem claimed (h : Holds held table) {requester : Option DeclarationKey} {answer : Claim TypeNode}
    (hclaim : table.claim key requester = .ok (answer, after)) :
    Holds (match answer with | .owner => key :: held | _ => held) after := by
  have hkeys : ∀ other, other ∈ (table.noteRequest key requester).inFlight.keys ↔
      other ∈ table.inFlight.keys := by
    intro other
    rw [ClaimTable.mem_keys_iff_ticket?, ClaimTable.ticket?_noteRequest,
      ClaimTable.mem_keys_iff_ticket?]
  have hgrants := ClaimTable.grants_of_claim hclaim
  have hordered := h.ordered.of_grants hgrants
  cases hgrants with
  | ready => exact h
  | wait => exact ⟨h.nodup, fun other => (h.mem_iff other).trans (hkeys other).symm, hordered⟩
  | owner _ _ hticket =>
    have hnot : key ∉ held := by
      rw [h.mem_iff, ClaimTable.mem_keys_iff_ticket?, hticket]
      simp
    refine ⟨List.nodup_cons.mpr ⟨hnot, h.nodup⟩, fun other => ?_, hordered⟩
    rw [ClaimTable.mem_keys_iff_ticket?, ClaimTable.ticket?_takeOff, List.mem_cons, h.mem_iff,
      ← hkeys, ClaimTable.mem_keys_iff_ticket?]
    by_cases heq : key = other
    · simp [heq]
    · rw [if_neg heq, or_iff_right (Ne.symm heq)]

theorem published (h : Holds (key :: held) table) (node? : Option TypeNode) :
    Holds held (table.publish key node?) where
  nodup := h.nodup.of_cons
  ordered := h.ordered.publish key node?
  mem_iff other := by
    have hmem := h.mem_iff other
    rw [List.mem_cons, ClaimTable.mem_keys_iff_ticket?] at hmem
    rw [ClaimTable.mem_keys_iff_ticket?, ClaimTable.ticket?_publish]
    by_cases heq : key = other
    · subst heq
      simpa using (List.nodup_cons.mp h.nodup).1
    · rw [if_neg heq, ← hmem, or_iff_right (Ne.symm heq)]

end Holds

/-! ## What waiting jobs rely on -/

namespace RoundState

/-- Who waits for a key under a ticket is going to be told its result, since it has one, or the key is
    still in flight under this ticket and its requester is known to depend on it. -/
def Awaits (s : RoundState σ) (requester : Option DeclarationKey) (key : DeclarationKey)
    (ticket : Nat) : Prop :=
  s.failures.get? ticket ≠ none ∨ s.build.claims.nodes.get? key ≠ none ∨
    s.build.claims.ticket? key = some ticket ∧
      ∀ holder ∈ requester, DependsOn s.build.claims.inFlight holder key

/-- A later state as those see it who hold the keys of `frame`. -/
structure Keeps (frame : List DeclarationKey) (s s' : RoundState σ) : Prop where
  awaits : ∀ {requester : Option DeclarationKey}, (∀ holder ∈ requester, holder ∈ frame) →
    ∀ {key ticket}, s.Awaits requester key ticket → s'.Awaits requester key ticket
  depends : ∀ {holder key}, holder ∈ frame → key ∈ frame →
    DependsOn s.build.claims.inFlight holder key → DependsOn s'.build.claims.inFlight holder key

theorem claims_settle (s : RoundState σ) (key : DeclarationKey)
    (result : Except ResolveError TypeNode) :
    (s.settle key result).build.claims = s.build.claims.publish key result.toOption := rfl

theorem failures_settle_error {s : RoundState σ} {key : DeclarationKey} {flight : Flight}
    (h : s.build.claims.inFlight.get? key = some flight) (error : ResolveError) :
    (s.settle key (.error error)).failures = s.failures.insert flight.ticket error := by
  unfold settle
  dsimp only
  rw [h]

/-- Failures are never taken back. -/
theorem failures_settle {s : RoundState σ} {ticket : Nat} (h : s.failures.get? ticket ≠ none)
    (key : DeclarationKey) (result : Except ResolveError TypeNode) :
    (s.settle key result).failures.get? ticket ≠ none := by
  unfold settle
  dsimp only
  split
  · rw [Assoc.get?_insert]
    split
    · exact Option.some_ne_none _
    · exact h
  · exact h

namespace Keeps

variable {frame wider : List DeclarationKey} {s s' s'' : RoundState σ}

theorem refl (frame : List DeclarationKey) (s : RoundState σ) : Keeps frame s s where
  awaits _ _ _ h := h
  depends _ _ h := h

theorem trans (h : Keeps frame s s') (h' : Keeps frame s' s'') : Keeps frame s s'' where
  awaits hrequester _ _ hawaits := h'.awaits hrequester (h.awaits hrequester hawaits)
  depends hholder hkey hdepends := h'.depends hholder hkey (h.depends hholder hkey hdepends)

theorem mono (h : Keeps wider s s') (hsubset : frame ⊆ wider) : Keeps frame s s' where
  awaits hrequester _ _ := h.awaits fun holder hholder => hsubset (hrequester holder hholder)
  depends hholder hkey := h.depends (hsubset hholder) (hsubset hkey)

/-- Nobody relies on what has been asked for, or on anything but claims and failures. -/
theorem of_eq (hclaims : s'.build.claims = s.build.claims) (hfailures : s'.failures = s.failures) :
    Keeps frame s s' where
  awaits _ _ _ h := by rwa [Awaits, hclaims, hfailures]
  depends _ _ h := by rwa [hclaims]

/-- A claim starts what was not in flight, and it takes no dependency away. -/
theorem claimed {key : DeclarationKey} {requester : Option DeclarationKey}
    {answer : Claim TypeNode} {claims : ClaimTable TypeNode}
    (hclaim : s.build.claims.claim key requester = .ok (answer, claims))
    (hframe : ∀ holder ∈ frame, holder ∈ s.build.claims.inFlight.keys) :
    Keeps frame s { s with build := { s.build with claims := claims } } := by
  cases ClaimTable.grants_of_claim hclaim with
  | ready => exact refl frame s
  | wait =>
    have hdepends : ∀ {holder next}, DependsOn s.build.claims.inFlight holder next →
        DependsOn (s.build.claims.noteRequest key requester).inFlight holder next :=
      fun h => ClaimTable.dependsOn_noteRequest_iff.mpr (.inl h)
    refine ⟨?_, fun _ _ h => hdepends h⟩
    rintro _ - other ticket (hfailed | hnode | ⟨hticket, hholders⟩)
    · exact .inl hfailed
    · exact .inr (.inl (by rwa [ClaimTable.nodes_noteRequest]))
    · refine .inr (.inr ⟨?_, fun holder hholder => hdepends (hholders holder hholder)⟩)
      rwa [ClaimTable.ticket?_noteRequest]
  | owner _ _ hfree =>
    have hdepends : ∀ {holder next}, holder ∈ frame →
        DependsOn s.build.claims.inFlight holder next →
        DependsOn ((s.build.claims.noteRequest key requester).takeOff key).inFlight holder next := by
      intro holder next hholder h
      refine ClaimTable.dependsOn_takeOff_iff.mpr
        ⟨?_, ClaimTable.dependsOn_noteRequest_iff.mpr (.inl h)⟩
      rintro rfl
      have hmem := hframe key hholder
      rw [ClaimTable.mem_keys_iff_ticket?, hfree] at hmem
      cases hmem
    refine ⟨?_, fun hholder _ h => hdepends hholder h⟩
    rintro _ hrequester other ticket (hfailed | hnode | ⟨hticket, hholders⟩)
    · exact .inl hfailed
    · exact .inr (.inl (by rwa [ClaimTable.nodes_takeOff, ClaimTable.nodes_noteRequest]))
    · refine .inr (.inr ⟨?_, fun holder hholder =>
        hdepends (hrequester holder hholder) (hholders holder hholder)⟩)
      rw [ClaimTable.ticket?_takeOff, if_neg, ClaimTable.ticket?_noteRequest, hticket]
      rintro rfl
      rw [hfree] at hticket
      cases hticket

/-- Who waits for a key that is settled is told so, and nobody else is affected. -/
theorem settle {key : DeclarationKey} (hkey : key ∉ frame) (result : Except ResolveError TypeNode) :
    Keeps frame s (s.settle key result) where
  awaits := by
    rintro requester hrequester other ticket (hfailed | hnode | ⟨hticket, hholders⟩)
    · exact .inl (failures_settle hfailed key result)
    · refine .inr (.inl ?_)
      rw [claims_settle, ClaimTable.get?_nodes_publish]
      split
      · cases result.toOption with
        | none => exact hnode
        | some node => exact Option.some_ne_none _
      · exact hnode
    · by_cases heq : key = other
      · subst heq
        cases result with
        | ok node =>
          refine .inr (.inl ?_)
          rw [claims_settle, ClaimTable.get?_nodes_publish, if_pos rfl]
          exact Option.some_ne_none _
        | error error =>
          obtain ⟨flight, hflight, rfl⟩ := Option.map_eq_some_iff.mp hticket
          refine .inl ?_
          rw [failures_settle_error hflight, Assoc.get?_insert, if_pos rfl]
          exact Option.some_ne_none _
      · refine .inr (.inr ⟨?_, fun holder hholder => ?_⟩)
        · rwa [claims_settle, ClaimTable.ticket?_publish, if_neg heq]
        · refine ClaimTable.dependsOn_publish_iff.mpr ⟨?_, heq, hholders holder hholder⟩
          rintro rfl
          exact hkey (hrequester key hholder)
  depends := by
    intro holder next hholder hnext h
    refine ClaimTable.dependsOn_publish_iff.mpr ⟨?_, ?_, h⟩
    · rintro rfl
      exact hkey hholder
    · rintro rfl
      exact hkey hnext

end Keeps
end RoundState

/-- Giving up a resolution of references gives back what it holds. -/
theorem Holds.giveUp {frame : List DeclarationKey} {references : ReferencesJob} {s : RoundState σ}
    (h : Holds (references.claimed ++ frame) s.build.claims) :
    Holds frame (s.giveUp references).build.claims ∧ s.Keeps frame (s.giveUp references) := by
  suffices hall : ∀ (keys : List DeclarationKey) (s : RoundState σ),
      Holds (keys ++ frame) s.build.claims →
        Holds frame (keys.foldl (fun state key => state.settle key (.error (.abandoned key.name)))
          s).build.claims ∧
        s.Keeps frame
          (keys.foldl (fun state key => state.settle key (.error (.abandoned key.name))) s) by
    obtain ⟨hholds, hkeeps⟩ := hall references.claimed (s.forsake references.awaited) h
    have hforsaken : s.Keeps frame (s.forsake references.awaited) := .of_eq rfl rfl
    exact ⟨hholds, hforsaken.trans hkeeps⟩
  intro keys
  induction keys with
  | nil => exact fun s hs => ⟨hs, .refl frame s⟩
  | cons key keys ih =>
    intro s hs
    have hkey : key ∉ frame := fun hmem =>
      (List.nodup_cons.mp hs.nodup).1 (List.mem_append_right _ hmem)
    obtain ⟨hholds, hkeeps⟩ := ih (s.settle key (.error (.abandoned key.name))) (hs.published none)
    exact ⟨hholds, .trans (.settle hkey _) hkeeps⟩

/-- When all keys are given back, nothing is in flight. -/
theorem inFlight_abandon (s : BuildState σ) : (Build.abandon s).claims.inFlight = [] := by
  suffices h : ∀ (keys : List DeclarationKey) (table : ClaimTable TypeNode),
      (∀ key ∈ table.inFlight.keys, key ∈ keys) →
        (keys.foldl (fun table key => table.publish key none) table).inFlight = [] from
    h _ _ fun _ hmem => hmem
  intro keys
  induction keys with
  | nil =>
    intro table h
    exact ClaimTable.inFlight_eq_nil fun key hmem => List.not_mem_nil (h key hmem)
  | cons key keys ih =>
    intro table h
    refine ih _ fun other hmem => ?_
    rw [ClaimTable.mem_keys_iff_ticket?, ClaimTable.ticket?_publish] at hmem
    split at hmem
    · cases hmem
    · next hne =>
      rw [← ClaimTable.mem_keys_iff_ticket?] at hmem
      exact (List.mem_cons.mp (h other hmem)).resolve_left (Ne.symm hne)

/-! ## Accounts -/

namespace Round

variable {α β : Type}

/-- A part of a round that finds the keys `held` among others leaves `after` among the others, and it
    keeps what these rely on, if it is not stopped. -/
def Accounts (held : List DeclarationKey) (action : Round σ α) (after : α → List DeclarationKey) :
    Prop :=
  ∀ frame s, Holds (held ++ frame) s.build.claims →
    ∀ a s', exec action s = (.ok a, s') →
      Holds (after a ++ frame) s'.build.claims ∧ s.Keeps frame s'

/-- A part of a round that leaves claims and failures alone. -/
abbrev LeavesClaims (action : Round σ α) : Prop :=
  ∀ claims failures, Ensures
    (fun s : RoundState σ => s.build.claims = claims ∧ s.failures = failures) action
    (fun _ => True) fun _ => True

namespace Accounts

variable {action : Round σ α} {after : α → List DeclarationKey}

theorem pure {a : α} (h : held.Perm (after a)) : Accounts held (Pure.pure a : Round σ α) after := by
  rintro frame s hs _ _ ⟨⟩
  exact ⟨hs.perm (h.append_right frame), .refl frame s⟩

theorem throw (halt : Halt) : Accounts held (throw halt : Round σ α) after := by
  rintro frame s hs _ _ ⟨⟩

theorem get : Accounts held (MonadState.get : Round σ (RoundState σ)) fun _ => held := by
  rintro frame s hs _ _ ⟨⟩
  exact ⟨hs, .refl frame s⟩

theorem bind {middle : α → List DeclarationKey} {f : α → Round σ β} {after : β → List DeclarationKey}
    (haction : Accounts held action middle) (hf : ∀ a, Accounts (middle a) (f a) after) :
    Accounts held (action >>= f) after := by
  intro frame s hs b s'' hout
  rw [exec_bind] at hout
  rcases hfirst : exec action s with ⟨halt | a, s'⟩ <;> rw [hfirst] at hout
  · cases hout
  · obtain ⟨hs', hkeeps⟩ := haction frame s hs a s' hfirst
    obtain ⟨hs'', hkeeps'⟩ := hf a frame s' hs' b s'' hout
    exact ⟨hs'', hkeeps.trans hkeeps'⟩

/-- Keys held behind one's own stay held. -/
theorem frame (h : Accounts held action after) (other : List DeclarationKey) :
    Accounts (held ++ other) action fun a => after a ++ other := by
  intro frame s hs a s' hout
  rw [List.append_assoc] at hs ⊢
  obtain ⟨hs', hkeeps⟩ := h (other ++ frame) s hs a s' hout
  exact ⟨hs', hkeeps.mono (List.subset_append_right other frame)⟩

/-- Keys held before one's own stay held. -/
theorem frame_left (h : Accounts held action after) (other : List DeclarationKey) :
    Accounts (other ++ held) action fun a => other ++ after a := by
  intro frame s hs a s' hout
  obtain ⟨hs', hkeeps⟩ :=
    h.frame other frame s (hs.perm (List.perm_append_comm.append_right frame)) a s' hout
  exact ⟨hs'.perm (List.perm_append_comm.append_right frame), hkeeps⟩

theorem of_leavesClaims (h : LeavesClaims action) : Accounts held action fun _ => held := by
  intro frame s hs a s' hout
  obtain ⟨hclaims, hfailures⟩ := (h _ _ s ⟨rfl, rfl⟩).1
  rw [hout] at hclaims hfailures
  dsimp only at hclaims hfailures
  refine ⟨?_, .of_eq hclaims hfailures⟩
  rw [hclaims]
  exact hs

end Accounts

/-! ## Lookups -/

theorem attempt_lookup_leavesClaims (action : Lookup σ α) :
    LeavesClaims (attempt (Build.lookup action)) := by
  intro claims failures s hs
  rw [exec_attempt]
  refine ⟨hs, ?_⟩
  split <;> trivial

theorem find_leavesClaims (services : Services σ) (job : FindJob) :
    LeavesClaims (find services job) := by
  intro claims failures
  cases job with
  | waiting location =>
    rw [find]
    refine .bind .get fun s hs => ?_
    split
    · exact .pure trivial
    · refine .bind .get fun s hs => ?_
      split
      · exact .pure trivial
      · exact .bind (.modify fun s hs => hs) fun _ _ => .pure trivial
  | asked location =>
    rw [find]
    exact .bind (attempt_lookup_leavesClaims _ claims failures) fun _ _ =>
      .bind (.modify fun s hs => hs) fun _ _ => .pure trivial
  | done result => exact .pure trivial

/-- Jobs that leave the claims alone do so together. -/
theorem moveAll_leavesClaims {joining : Joining} {result? : β → Option (Except ResolveError α)}
    {move : β → Round σ β} (hmove : ∀ job, LeavesClaims (move job)) (settled : Bool)
    (jobs : List β) : LeavesClaims (moveAll joining result? move settled jobs) := by
  intro claims failures s hs
  have hjobs : List.Forall₂ (fun _ _ : β => True) jobs jobs := List.forall₂_same.mpr (by simp)
  have hmoved : Ensures
      (fun s : RoundState σ => s.build.claims = claims ∧ s.failures = failures)
      (moveAll joining result? move settled jobs) _ _ :=
    moveAll_ensures (fun job _ _ _ => hmove job claims failures) hjobs
  refine ⟨(hmoved s hs).1, ?_⟩
  split <;> trivial

theorem findAll_leavesClaims (services : Services σ) (finds : List FindJob) :
    LeavesClaims (findAll services finds) := by
  intro claims failures
  refine .bind (moveAll_leavesClaims (find_leavesClaims services) true finds claims failures) ?_
  intro finds' _
  dsimp only
  split
  · exact .bind (.modify fun s hs => hs) fun _ _ => .pure trivial
  · exact .pure trivial

theorem look_leavesClaims (services : Services σ) (uri : String) (job : LookupJob) :
    LeavesClaims (look services uri job) := by
  intro claims failures
  cases job with
  | fresh position => exact .pure trivial
  | asked position =>
    rw [look]
    refine .bind (attempt_lookup_leavesClaims _ claims failures) fun locations _ => ?_
    cases locations with
    | error error => exact .pure trivial
    | ok locations => exact findAll_leavesClaims services _ claims failures
  | finding finds => exact findAll_leavesClaims services finds claims failures
  | failed error => exact .pure trivial

/-! ## Builds -/

theorem claimedByAll_fresh (requester : Option DeclarationKey) (targets : List Declaration) :
    claimedByAll (targets.map (.fresh requester)) = [] := by
  induction targets with
  | nil => rfl
  | cons target targets ih => rw [List.map_cons, claimedByAll, ih]; rfl

/-- What has come to nodes holds nothing any more. -/
theorem claimedByAll_of_result? {joining : Joining} {jobs : List ResolveJob} {nodes : List TypeNode}
    (h : joining.result? ResolveJob.result? jobs = some (.ok nodes)) : claimedByAll jobs = [] := by
  induction jobs generalizing nodes with
  | nil => rfl
  | cons job jobs ih =>
    obtain ⟨node, rest, -, hjob, hrest⟩ := Joining.result?_cons_ok h
    cases job with
    | done result => rw [claimedByAll, ih hrest]; rfl
    | _ => cases hjob

theorem claimed_of_result? {references : ReferencesJob} {nodes : List TypeNode}
    (h : references.result? = some (.ok nodes)) : references.claimed = [] := by
  cases references with
  | looking lookups => rfl
  | resolving jobs => exact claimedByAll_of_result? h

section Builds

variable {move : ResolveJob → Round σ ResolveJob}
  (hmove : ∀ job, Accounts job.claimed (move job) ResolveJob.claimed)

include hmove

theorem moveAll_accounts {joining : Joining}
    {result? : ResolveJob → Option (Except ResolveError TypeNode)} (settled : Bool)
    (jobs : List ResolveJob) :
    Accounts (claimedByAll jobs) (moveAll joining result? move settled jobs) claimedByAll := by
  induction jobs generalizing settled with
  | nil => exact .pure (.refl _)
  | cons job jobs ih =>
    have hrest : ∀ (job' : ResolveJob) settled, Accounts (job'.claimed ++ claimedByAll jobs)
        (do return job' :: (← moveAll joining result? move settled jobs)) claimedByAll :=
      fun job' settled => .bind ((ih settled).frame_left job'.claimed) fun _ => .pure (.refl _)
    rw [claimedByAll, moveAll]
    refine .bind ((hmove job).frame (claimedByAll jobs)) fun job' => ?_
    split
    · exact hrest job' settled
    · split
      · exact .pure (.refl _)
      · exact hrest job' settled
    · exact hrest job' false

theorem resolveAll_accounts (jobs : List ResolveJob) :
    Accounts (claimedByAll jobs) (resolveAll move jobs) ReferencesJob.claimed :=
  .bind (moveAll_accounts hmove true jobs) fun _ => .pure (.refl _)

theorem moveReferences_accounts (services : Services σ) (owner : Declaration)
    (references : ReferencesJob) :
    Accounts references.claimed (moveReferences services move owner references)
      ReferencesJob.claimed := by
  cases references with
  | looking lookups =>
    rw [moveReferences]
    refine .bind (.of_leavesClaims (moveAll_leavesClaims (look_leavesClaims services owner.uri) true
      lookups)) fun lookups' => ?_
    split
    · next found _ =>
      have hfresh := resolveAll_accounts hmove (found.flatten.map (.fresh (some owner.key)))
      rwa [claimedByAll_fresh] at hfresh
    · exact .pure (.refl _)
  | resolving jobs => exact resolveAll_accounts hmove jobs

omit hmove in
theorem succeed_accounts (owner : Declaration) (superClasses superInterfaces : List TypeNode) :
    Accounts [owner.key] (succeed owner superClasses superInterfaces : Round σ ResolveJob)
      ResolveJob.claimed := by
  rintro frame s hs _ _ ⟨⟩
  have hnew : s.Keeps frame
      { s with build := { s.build with built := s.build.built + 1 } } := .of_eq rfl rfl
  exact ⟨hs.published (some _), hnew.trans (.settle (List.nodup_cons.mp hs.nodup).1 _)⟩

omit hmove in
theorem fail_accounts (owner : Declaration) (superClasses superInterfaces : ReferencesJob)
    (error : ResolveError) :
    Accounts (superClasses.claimed ++ superInterfaces.claimed ++ [owner.key])
      (fail owner superClasses superInterfaces error : Round σ ResolveJob)
      ResolveJob.claimed := by
  rintro frame s hs _ _ ⟨⟩
  rw [List.append_assoc, List.append_assoc] at hs
  obtain ⟨hclasses, hkeeps⟩ := hs.giveUp
  obtain ⟨hinterfaces, hkeeps'⟩ := hclasses.giveUp
  have hkept : s.Keeps ([owner.key] ++ frame) ((s.giveUp superClasses).giveUp superInterfaces) :=
    (hkeeps.mono (List.subset_append_right _ _)).trans hkeeps'
  exact ⟨hinterfaces.published none, (hkept.mono (List.subset_append_right _ _)).trans
    (.settle (List.nodup_cons.mp hinterfaces.nodup).1 _)⟩

theorem moveBuild_accounts (services : Services σ) (owner : Declaration)
    (superClasses superInterfaces : ReferencesJob) :
    Accounts (superClasses.claimed ++ superInterfaces.claimed ++ [owner.key])
      (moveBuild services move owner superClasses superInterfaces) ResolveJob.claimed := by
  rw [moveBuild, List.append_assoc]
  refine .bind ((moveReferences_accounts hmove services owner superClasses).frame _)
    fun superClasses => ?_
  rw [← List.append_assoc]
  split
  · exact fail_accounts owner superClasses superInterfaces _
  · refine .bind (((moveReferences_accounts hmove services owner superInterfaces).frame_left
      superClasses.claimed).frame [owner.key]) fun superInterfaces => ?_
    split
    · exact fail_accounts owner superClasses superInterfaces _
    · next hclasses hinterfaces =>
      rw [claimed_of_result? hclasses, claimed_of_result? hinterfaces]
      exact succeed_accounts owner _ _
    · exact .pure (.refl _)

end Builds

/-! ## Resolutions -/

theorem attempt_claim_accounts (key : DeclarationKey) (requester : Option DeclarationKey) :
    Accounts [] (attempt (Build.claim key requester) : Round σ (Except ResolveError (Claim TypeNode)))
      fun answer => match answer with | .ok .owner => [key] | _ => [] := by
  intro frame s hs answer s' hout
  rw [exec_attempt, Build.exec_claim] at hout
  rcases hclaim : s.build.claims.claim key requester with cycle | ⟨answer', claims⟩ <;>
    rw [hclaim] at hout <;> cases hout
  · exact ⟨hs, .refl frame s⟩
  · refine ⟨?_, .claimed hclaim fun holder hholder => (hs.mem_iff holder).mp hholder⟩
    have hclaimed := hs.claimed hclaim
    cases answer' <;> exact hclaimed

/-- **A round accounts for what a job holds.** -/
theorem move_accounts (services : Services σ) (depth : Nat) (job : ResolveJob) :
    Accounts job.claimed (move services depth job) ResolveJob.claimed := by
  induction depth generalizing job with
  | zero => exact .throw _
  | succ depth ih =>
    cases job with
    | fresh requester declaration =>
      rw [move]
      cases declaration.typeKind with
      | error error => exact .pure (.refl _)
      | ok kind =>
        refine .bind (attempt_claim_accounts declaration.key requester) fun answer => ?_
        rcases answer with error | answer
        · exact .pure (.refl _)
        · cases answer with
          | ready node => exact .pure (.refl _)
          | wait ticket => exact .pure (.refl _)
          | owner =>
            dsimp only
            cases declaration.references? kind with
            | none => exact .throw _
            | some references =>
              exact moveBuild_accounts ih services declaration (.start references.superClasses)
                (.start references.superInterfaces)
    | waiting key ticket =>
      rw [move]
      refine .bind .get fun s => .bind .get fun s' => ?_
      split <;> exact .pure (.refl _)
    | building declaration superClasses superInterfaces =>
      exact moveBuild_accounts ih services declaration superClasses superInterfaces
    | done result => exact .pure (.refl _)

theorem moveUntilDone_accounts (services : Services σ) (depth rounds : Nat) (job : ResolveJob) :
    Accounts job.claimed (moveUntilDone services depth rounds job) fun _ => [] := by
  induction rounds generalizing job with
  | zero => exact .throw _
  | succ rounds ih =>
    rw [moveUntilDone]
    refine .bind (.of_leavesClaims fun _ _ => .modify fun s hs => hs) fun _ => ?_
    refine .bind (move_accounts services depth job) fun job' => ?_
    split
    · next result hresult =>
      cases job' with
      | done result' => exact .pure (.refl _)
      | _ => cases hresult
    · exact ih job'

end Round

/-- **Everything is given back.** However an interleaved resolution over any services ends, nothing
    stays in flight. -/
theorem Build.inFlight_resolveInRounds (services : Services σ) (rounds : Nat) (root : Declaration)
    {s : BuildState σ} (hs : s.claims.inFlight = []) :
    (exec (resolveInRounds services rounds root) s).2.claims.inFlight = [] := by
  have haccounts := Round.moveUntilDone_accounts services (depthBound services) rounds
    (.fresh none root) [] ⟨s, [], []⟩ (.of_inFlight_eq_nil hs)
  rw [exec_resolveInRounds]
  rcases hout : exec (Round.moveUntilDone services (depthBound services) rounds
    (.fresh none root)) ⟨s, [], []⟩ with ⟨halt | ⟨error | node⟩, state⟩
  · exact inFlight_abandon state.build
  · exact (haccounts _ _ hout).1.inFlight_eq_nil
  · exact (haccounts _ _ hout).1.inFlight_eq_nil

end Lineage
