import Lineage.Proofs.Claim.Coherence

set_option autoImplicit false

/-! # Single flight

A wait keeps the ticket of the resolution it was handed out for. As long as the guard of that
resolution is live, the wait is pending; what the guard publishes is recorded under the ticket once and
for all, and is what the wait receives (`Pending.of_acts`, `Received.of_acts`). A published node answers
all later claims of its key, and after a failure the key is free to be claimed again. -/

namespace Lineage
namespace ClaimSession

variable {ν : Type} {session after : ClaimSession ν} {action : Action ν} {key : DeclarationKey}
  {slot guard : Nat} {wait : Wait} {result : Except ResolveError ν}

/-! ## What a wait receives -/

/-- The wait in `slot` waits for the resolution of its key that the guard owns. -/
structure Pending (session : ClaimSession ν) (guard slot : Nat) (wait : Wait) : Prop where
  live : session.guard? guard = some wait.key
  ticket_eq : session.table.ticket? wait.key = some wait.ticket
  here : session.wait? slot = some wait

/-- The guard is used up, and the wait in `slot`, if it was not looked at before, has its result. -/
structure Received (session : ClaimSession ν) (guard slot : Nat) (wait : Wait)
    (result : Except ResolveError ν) : Prop where
  used : session.guard? guard = none
  guard_lt : guard < session.guards.length
  result_eq : session.results.get? wait.ticket = some result
  slot_lt : slot < session.waits.length
  here : ∀ other, session.wait? slot = some other → other = wait

theorem wait?_await (session : ClaimSession ν) (key : DeclarationKey)
    (requester : Option DeclarationKey) (ticket slot : Nat) :
    (session.await key requester ticket).wait? slot =
      if slot = session.waits.length then some ⟨key, ticket⟩ else session.wait? slot :=
  join_getElem?_concat session.waits ⟨key, ticket⟩ slot

theorem wait?_collect (session : ClaimSession ν) (used slot : Nat) :
    wait? { session with waits := session.waits.set used none } slot =
      if used = slot then none else session.wait? slot :=
  join_getElem?_set_none session.waits used slot

theorem Pending.settled?_eq (h : session.Pending guard slot wait) (hcoherent : session.Coherent) :
    session.settled? wait = none := by
  obtain ⟨flight, hflight, hticket⟩ := Option.map_eq_some_iff.mp h.ticket_eq
  have hany : session.table.inFlight.any (fun entry => entry.2.ticket == wait.ticket) = true := by
    rw [List.any_eq_true]
    refine ⟨(wait.key, flight), ?_, by simpa using hticket⟩
    exact Assoc.mem_of_get? hflight
  rw [settled?, (hcoherent.pending h.ticket_eq).2, hany]
  rfl

theorem Received.settled?_eq (h : session.Received guard slot wait result) :
    session.settled? wait = some result := by
  rw [settled?, h.result_eq]

theorem Pending.release (h : session.Pending guard slot wait) (result : Except ResolveError ν) :
    (session.release guard wait.key result).Received guard slot wait result := by
  constructor
  · rw [guard?_release, if_pos rfl]
  · have := lt_length_of_join_getElem? h.live
    simpa [ClaimSession.release] using this
  · rw [results_release h.ticket_eq, Assoc.get?_insert, if_pos rfl]
  · exact lt_length_of_join_getElem? h.here
  · intro other hother
    have hsame : session.wait? slot = some other := hother
    rw [h.here] at hsame
    cases hsame
    rfl

/-- A pending wait stays pending until its guard publishes, and then has the result. -/
theorem Pending.of_acts (h : session.Pending guard slot wait) (hcoherent : session.Coherent)
    (horderly : session.Orderly action) (hacts : session.Acts action after) :
    after.Pending guard slot wait ∨
      ∃ result, action.Publishes guard wait.key result ∧ after.Received guard slot wait result := by
  have hslot := lt_length_of_join_getElem? h.here
  have hguard := lt_length_of_join_getElem? h.live
  cases hacts with
  | idle => exact .inl h
  | wait _ _ _ =>
    refine .inl ⟨h.live, ?_, ?_⟩
    · rw [await, ClaimTable.ticket?_noteRequest]
      exact h.ticket_eq
    · rw [wait?_await, if_neg (by omega)]
      exact h.here
  | owner _ _ hfree =>
    refine .inl ⟨?_, ?_, h.here⟩
    · rw [guard?_own, if_neg (by omega)]
      exact h.live
    · rw [ticket?_own, if_neg]
      · exact h.ticket_eq
      · rintro rfl
        rw [h.ticket_eq] at hfree
        cases hfree
  | @release used key action result hused hpublishes =>
    by_cases heq : used = guard
    · subst heq
      obtain rfl : wait.key = key := Option.some.inj (h.live.symm.trans hused)
      exact .inr ⟨result, hpublishes, h.release result⟩
    · refine .inl ⟨?_, ?_, h.here⟩
      · rw [guard?_release, if_neg heq]
        exact h.live
      · rw [ticket?_release, if_neg]
        · exact h.ticket_eq
        · rintro rfl
          exact heq (hcoherent.alone hused h.live)
  | @collect used other result hother hsettled =>
    refine .inl ⟨h.live, h.ticket_eq, ?_⟩
    rw [wait?_collect, if_neg]
    · exact h.here
    · rintro rfl
      -- only a settled wait is used up
      obtain rfl : wait = other := Option.some.inj (h.here.symm.trans hother)
      rw [h.settled?_eq hcoherent] at hsettled
      cases hsettled
  | put => exact horderly.elim
  | clear =>
    have hnone := horderly.guard?_eq_none guard
    rw [h.live] at hnone
    cases hnone

/-- What a wait has received stays. -/
theorem Received.of_acts (h : session.Received guard slot wait result)
    (hcoherent : session.Coherent) (horderly : session.Orderly action)
    (hacts : session.Acts action after) : after.Received guard slot wait result := by
  cases hacts with
  | idle => exact h
  | wait _ _ _ =>
    have hslot := h.slot_lt
    refine ⟨h.used, h.guard_lt, h.result_eq, ?_, ?_⟩
    · simp only [await, List.length_append, List.length_singleton]
      omega
    · intro other hother
      rw [wait?_await, if_neg (by omega)] at hother
      exact h.here other hother
  | owner _ _ _ =>
    have hguard := h.guard_lt
    refine ⟨?_, ?_, h.result_eq, h.slot_lt, h.here⟩
    · rw [guard?_own, if_neg (by omega)]
      exact h.used
    · simp only [own, List.length_append, List.length_singleton]
      omega
  | @release used key action result' hused _ =>
    obtain ⟨ticket, hticket⟩ := hcoherent.exists_ticket hused
    refine ⟨?_, ?_, ?_, h.slot_lt, h.here⟩
    · rw [guard?_release]
      split
      · rfl
      · exact h.used
    · simpa [ClaimSession.release] using h.guard_lt
    · rw [results_release hticket, Assoc.get?_insert, if_neg]
      · exact h.result_eq
      · rintro rfl
        have hnone := (hcoherent.pending hticket).2
        rw [h.result_eq] at hnone
        cases hnone
  | @collect used _ _ _ _ =>
    refine ⟨h.used, h.guard_lt, h.result_eq, by simpa using h.slot_lt, ?_⟩
    intro other hother
    rw [wait?_collect] at hother
    split at hother
    · cases hother
    · exact h.here other hother
  | put => exact horderly.elim
  | clear => exact ⟨h.used, h.guard_lt, h.result_eq, h.slot_lt, h.here⟩

theorem Received.run (h : session.Received guard slot wait result) (hcoherent : session.Coherent)
    {actions : List (Action ν)} (horderly : Along Orderly session actions) :
    (session.run actions).Received guard slot wait result := by
  have hboth := run_invariant
    (I := fun session => session.Coherent ∧ session.Received guard slot wait result)
    (fun session action h horderly =>
      ⟨h.1.of_acts horderly (session.acts action), h.2.of_acts h.1 horderly (session.acts action)⟩)
    ⟨hcoherent, h⟩ horderly
  exact hboth.2

/-- After a run a wait is still pending, or its guard has published in the meantime. -/
theorem Pending.run (h : session.Pending guard slot wait) (hcoherent : session.Coherent)
    {actions : List (Action ν)} (horderly : Along Orderly session actions) :
    (session.run actions).Pending guard slot wait ∨
      ∃ front action back result, actions = front ++ action :: back ∧
        (session.run front).Pending guard slot wait ∧ action.Publishes guard wait.key result ∧
        (session.run actions).Received guard slot wait result := by
  induction actions generalizing session with
  | nil => exact .inl h
  | cons action rest ih =>
    have hnext := hcoherent.of_acts horderly.1 (session.acts action)
    rcases h.of_acts hcoherent horderly.1 (session.acts action) with hpending |
      ⟨result, hpublishes, hreceived⟩
    · rcases ih hpending hnext horderly.2 with hlast |
        ⟨front, action', back, result, rfl, hlive, hpublishes, hreceived⟩
      · exact .inl hlast
      · exact .inr ⟨action :: front, action', back, result, rfl, hlive, hpublishes, hreceived⟩
    · exact .inr ⟨[], action, rest, result, rfl, h, hpublishes, hreceived.run hnext horderly.2⟩

/-- Along every orderly run, the wait in `slot` is pending as long as the guard is live; it receives
    exactly what the guard publishes; and the guard is live until it publishes. -/
structure SettledBy (session : ClaimSession ν) (guard slot : Nat) (wait : Wait) : Prop where
  pending : ∀ later, Along Orderly session later →
    (session.run later).guard? guard = some wait.key →
      (session.run later).poll? slot = some (none, session.run later)
  received : ∀ front action back result, Along Orderly session (front ++ action :: back) →
    (session.run front).guard? guard = some wait.key →
    action.Publishes guard wait.key result →
      (session.run (front ++ action :: back)).settled? wait = some result ∧
        ∀ answer next,
          (session.run (front ++ action :: back)).poll? slot = some (answer, next) →
            answer = some result
  published : ∀ later, Along Orderly session later →
    (session.run later).guard? guard = some wait.key ∨
      ∃ front action back result, later = front ++ action :: back ∧
        (session.run front).guard? guard = some wait.key ∧ action.Publishes guard wait.key result

theorem Pending.poll?_eq (h : session.Pending guard slot wait) (hcoherent : session.Coherent) :
    session.poll? slot = some (none, session) := by
  rw [poll?, ← wait?, h.here, Option.map_some, h.settled?_eq hcoherent]

theorem Received.eq_of_poll? (h : session.Received guard slot wait result)
    {answer : Option (Except ResolveError ν)} {next : ClaimSession ν}
    (hpoll : session.poll? slot = some (answer, next)) : answer = some result := by
  rw [poll?, ← wait?] at hpoll
  obtain ⟨other, hother, heq⟩ := Option.map_eq_some_iff.mp hpoll
  obtain rfl := h.here other hother
  rw [h.settled?_eq] at heq
  cases heq
  rfl

theorem Pending.settledBy (h : session.Pending guard slot wait) (hcoherent : session.Coherent) :
    session.SettledBy guard slot wait := by
  have hlive : ∀ later, Along Orderly session later →
      (session.run later).guard? guard = some wait.key →
        (session.run later).Pending guard slot wait := by
    intro later horderly hguard
    rcases h.run hcoherent horderly with hpending | ⟨_, _, _, _, -, -, -, hreceived⟩
    · exact hpending
    · rw [hreceived.used] at hguard
      cases hguard
  constructor
  · intro later horderly hguard
    exact (hlive later horderly hguard).poll?_eq (hcoherent.run horderly)
  · intro front action back result horderly hguard hpublishes
    obtain ⟨hfront, hallowed, hback⟩ := along_append.mp horderly
    have hcoherent' := hcoherent.run hfront
    have hreceived : ((session.run front).act action).Received guard slot wait result := by
      rw [act_of_publishes hguard hpublishes]
      exact (hlive front hfront hguard).release result
    have hlast := hreceived.run (hcoherent'.of_acts hallowed (acts _ action)) hback
    rw [run_append]
    exact ⟨hlast.settled?_eq, fun _ _ hpoll => hlast.eq_of_poll? hpoll⟩
  · intro later horderly
    rcases h.run hcoherent horderly with hpending |
      ⟨front, action, back, result, heq, hpending, hpublishes, -⟩
    · exact .inl hpending.live
    · exact .inr ⟨front, action, back, result, heq, hpending.live, hpublishes⟩

/-! ## Later claims of a published key -/

/-- Unless the table is cleared, a node that is in the table stays. -/
theorem get?_nodes_of_acts {node : ν} (h : session.table.nodes.get? key = some node)
    (hcoherent : session.Coherent) (horderly : session.Orderly action) (hclear : action ≠ .clear)
    (hacts : session.Acts action after) : after.table.nodes.get? key = some node := by
  cases hacts with
  | idle => exact h
  | wait _ _ _ =>
    rw [await, ClaimTable.nodes_noteRequest]
    exact h
  | owner _ _ _ =>
    rw [nodes_own]
    exact h
  | release hguard _ =>
    obtain ⟨ticket, hticket⟩ := hcoherent.exists_ticket hguard
    rw [get?_nodes_release, if_neg]
    · exact h
    · rintro rfl
      rw [hcoherent.unresolved hticket] at h
      cases h
  | collect _ _ => exact h
  | put => exact horderly.elim
  | clear => exact absurd rfl hclear

/-- Neither resolved nor in flight. -/
def Free (session : ClaimSession ν) (key : DeclarationKey) : Prop :=
  session.table.nodes.get? key = none ∧ session.table.ticket? key = none

/-- A free key stays free until it is claimed by a claim that closes no cycle. -/
theorem Free.of_acts (h : session.Free key) (hcoherent : session.Coherent)
    (horderly : session.Orderly action)
    (hcloses : ∀ requester, action = .claim key requester → session.table.Closes key requester)
    (hacts : session.Acts action after) : after.Free key := by
  cases hacts with
  | idle => exact h
  | wait _ _ _ =>
    rw [Free, await, ClaimTable.nodes_noteRequest, ClaimTable.ticket?_noteRequest]
    exact h
  | @owner _ requester _ hgranted _ =>
    rw [Free, nodes_own, ticket?_own, if_neg]
    · exact h
    · rintro rfl
      exact hgranted (hcloses requester rfl)
  | release hguard _ =>
    obtain ⟨ticket, hticket⟩ := hcoherent.exists_ticket hguard
    have hne : ∀ other, session.table.ticket? other = some ticket → other ≠ key := by
      rintro other hother rfl
      rw [h.2] at hother
      cases hother
    rw [Free, get?_nodes_release, ticket?_release, if_neg (hne _ hticket),
      if_neg (hne _ hticket)]
    exact h
  | collect _ _ => exact h
  | put => exact horderly.elim
  | clear => exact ⟨rfl, rfl⟩

theorem claim_of_resolved {node : ν} (h : session.table.nodes.get? key = some node)
    (requester : Option DeclarationKey) :
    session.claim key requester = .ok (.ready node, session) := by
  rw [claim, ClaimTable.claim_of_resolved requester h]

theorem Free.claim_eq (h : session.Free key) {requester : Option DeclarationKey}
    (hcloses : ¬ session.table.Closes key requester) :
    ∃ slot next, session.claim key requester = .ok (.owner slot, next) ∧
      next.guard? slot = some key := by
  rw [claim, ClaimTable.claim_of_free h.1 h.2 hcloses]
  refine ⟨session.guards.length, session.own key requester, rfl, ?_⟩
  rw [guard?_own, if_pos rfl]

/-! ## The whole -/

/-- Single flight and agreement, in a session and along all orderly runs from it. -/
structure SingleFlight (session : ClaimSession ν) : Prop where
  /-- In flight are the keys of the live guards. -/
  owned : ∀ key, key ∈ session.table.inFlight.keys ↔ ∃ slot, session.guard? slot = some key
  /-- No two live guards have the same key. -/
  alone : ∀ key slot slot', session.guard? slot = some key → session.guard? slot' = some key →
    slot = slot'
  /-- What is in flight is not resolved. -/
  unresolved : ∀ key ∈ session.table.inFlight.keys, session.table.get? key = none
  /-- A wait that is handed out is settled by the guard that owns its key. -/
  settled : ∀ key requester slot after, session.claim key requester = .ok (.wait slot, after) →
    ∃ guard wait, session.guard? guard = some key ∧ wait.key = key ∧
      after.wait? slot = some wait ∧ after.SettledBy guard slot wait
  /-- A published node answers all later claims of its key, up to the next clearing. -/
  ready : ∀ slot key action node, session.guard? slot = some key →
    action.Publishes slot key (.ok node) → ∀ later,
    Along (fun session action => session.Orderly action ∧ action ≠ .clear) (session.act action)
      later →
    ∀ requester, ((session.act action).run later).claim key requester =
      .ok (.ready node, (session.act action).run later)
  /-- After a failure the key is not resolved, and the next claim of it that closes no cycle owns
      it. -/
  reclaimed : ∀ slot key action error, session.guard? slot = some key →
    action.Publishes slot key (.error error) → ∀ later,
    Along (fun session action => session.Orderly action ∧ ∀ requester,
        action = .claim key requester → session.table.Closes key requester)
      (session.act action) later →
    ((session.act action).run later).table.get? key = none ∧
      ∀ requester, ¬ ((session.act action).run later).table.Closes key requester →
        ∃ slot next, ((session.act action).run later).claim key requester =
          .ok (.owner slot, next) ∧ next.guard? slot = some key

theorem Coherent.pending_of_claim (h : session.Coherent) {requester : Option DeclarationKey}
    (hclaim : session.claim key requester = .ok (.wait slot, after)) :
    ∃ guard wait, session.guard? guard = some key ∧ wait.key = key ∧
      after.Pending guard slot wait ∧ after.Coherent := by
  rcases claim_cases hclaim with ⟨_, -, ⟨⟩, -⟩ |
    ⟨hnone, hcloses, ⟨ticket, hticket, hslot, rfl⟩ | ⟨-, ⟨⟩, -⟩⟩
  cases hslot
  have horderly : session.Orderly (.claim key requester) := trivial
  have hafter := h.of_acts horderly (.wait hnone hcloses hticket)
  obtain ⟨guard, hguard⟩ := (h.owned key).mp (by rw [hticket]; rfl)
  refine ⟨guard, ⟨key, ticket⟩, hguard, rfl, ⟨hguard, ?_, ?_⟩, hafter⟩
  · rw [await, ClaimTable.ticket?_noteRequest]
    exact hticket
  · rw [wait?_await, if_pos rfl]

theorem Coherent.singleFlight (h : session.Coherent) : session.SingleFlight := by
  constructor
  · intro key
    rw [ClaimTable.mem_keys_iff_ticket?]
    exact h.owned key
  · intro key slot slot' hguard hguard'
    exact h.alone hguard hguard'
  · intro key hmem
    rw [ClaimTable.mem_keys_iff_ticket?] at hmem
    obtain ⟨ticket, hticket⟩ := Option.isSome_iff_exists.mp hmem
    exact h.unresolved hticket
  · intro key requester slot after hclaim
    obtain ⟨guard, wait, hguard, hkey, hpending, hafter⟩ := h.pending_of_claim hclaim
    exact ⟨guard, wait, hguard, hkey, hpending.here, hpending.settledBy hafter⟩
  · intro slot key action node hguard hpublishes later hlater requester
    have hnode : (session.act action).table.nodes.get? key = some node := by
      rw [act_of_publishes hguard hpublishes, get?_nodes_release, if_pos rfl]
      rfl
    have hcoherent : (session.act action).Coherent := by
      rw [act_of_publishes hguard hpublishes]
      exact h.release hguard _
    have hlast := run_invariant
      (I := fun session => session.Coherent ∧ session.table.nodes.get? key = some node)
      (fun session action h hallowed =>
        ⟨h.1.of_acts hallowed.1 (session.acts action),
          get?_nodes_of_acts h.2 h.1 hallowed.1 hallowed.2 (session.acts action)⟩)
      ⟨hcoherent, hnode⟩ hlater
    exact claim_of_resolved hlast.2 requester
  · intro slot key action error hguard hpublishes later hlater
    obtain ⟨ticket, hticket⟩ := h.exists_ticket hguard
    have hfree : (session.act action).Free key := by
      rw [act_of_publishes hguard hpublishes, Free, get?_nodes_release, ticket?_release,
        if_pos rfl, if_pos rfl]
      exact ⟨h.unresolved hticket, rfl⟩
    have hcoherent : (session.act action).Coherent := by
      rw [act_of_publishes hguard hpublishes]
      exact h.release hguard _
    have hlast := run_invariant (I := fun session => session.Coherent ∧ session.Free key)
      (fun session action h hallowed =>
        ⟨h.1.of_acts hallowed.1 (session.acts action),
          h.2.of_acts h.1 hallowed.1 hallowed.2 (session.acts action)⟩)
      ⟨hcoherent, hfree⟩ hlater
    exact ⟨hlast.2.1, fun requester hcloses => hlast.2.claim_eq hcloses⟩

/-- **Single flight and agreement** hold after every orderly run from an empty session. -/
theorem run_singleFlight {actions : List (Action ν)}
    (horderly : Along Orderly (empty : ClaimSession ν) actions) :
    ((empty : ClaimSession ν).run actions).SingleFlight :=
  (coherent_empty.run horderly).singleFlight

/-- Two keys that claim each other, a failure, a second attempt, a drop, and a clearing. -/
def sampleActions : List (Action Nat) :=
  let named (name : String) : DeclarationKey := ⟨name, .classType, "sample", ⟨⟨0, 0⟩, ⟨0, 0⟩⟩⟩
  [.claim (named "A") none, .claim (named "B") (some (named "A")), .claim (named "B") none,
    .claim (named "A") (some (named "B")), .complete 1 (.error (.abandoned "B")),
    .claim (named "B") (some (named "A")), .complete 2 (.ok 7), .drop 0, .clear,
    .claim (named "B") none]

theorem along_sampleActions : Along Orderly (empty : ClaimSession Nat) sampleActions := by
  refine ⟨trivial, trivial, trivial, trivial, trivial, trivial, trivial, trivial, ?_, trivial,
    trivial⟩
  show ∀ guard ∈ _, guard = none
  decide +kernel

theorem run_sampleActions_singleFlight :
    Along Orderly (empty : ClaimSession Nat) sampleActions ∧
      ((empty : ClaimSession Nat).run sampleActions).SingleFlight :=
  ⟨along_sampleActions, run_singleFlight along_sampleActions⟩

end ClaimSession
end Lineage
