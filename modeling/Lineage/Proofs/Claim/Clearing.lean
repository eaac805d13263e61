import Lineage.Proofs.Claim.Chain
import Lineage.Proofs.Claim.Coherence

set_option autoImplicit false

/-! # What a clearing keeps apart

Clearing the table does not use up the guards that are live. Such a guard still publishes, and since
guards publish by key, what it publishes may reach a resolution that was claimed after the clearing
(`sampleLate_reaches_new_claim`). So a clearing keeps apart what comes after it only as far as keys do:
whatever happens in between, a late publication touches the node of its own key, the resolution of its
own key and the waits on that resolution, and nothing else (`publication_after_clear`).

Which waits these are is a matter of tickets. Tickets are counted up over the whole run, so a
resolution that is in flight after a clearing has a ticket that no earlier wait can have. -/

namespace Lineage

namespace ClaimTable

variable {ν : Type} {table : ClaimTable ν}

/-! ## Keys in flight -/

theorem keys_noteRequest (table : ClaimTable ν) (key : DeclarationKey)
    (requester : Option DeclarationKey) :
    (table.noteRequest key requester).inFlight.keys = table.inFlight.keys := by
  rcases noteRequest_cases table key requester with ⟨heq, -⟩ | ⟨holder, flight, -, hget, heq⟩
  · rw [heq]
  · have hmem : holder ∈ table.inFlight.keys := by
      rw [Assoc.mem_keys_iff, hget]
      rfl
    rw [heq]
    simp only [Assoc.keys_insert, hmem, if_true]

theorem keys_publish (table : ClaimTable ν) (key : DeclarationKey) (node : Option ν) :
    (table.publish key node).inFlight.keys = table.inFlight.keys.filter (· ≠ key) := by
  unfold publish Assoc.keys Assoc.erase
  rw [List.map_map, List.filter_map]
  rfl

/-- A ticket is awaited in the table exactly if some key is in flight under it. -/
theorem any_ticket_iff (h : table.inFlight.keys.Nodup) (ticket : Nat) :
    table.inFlight.any (fun entry => entry.2.ticket == ticket) = true ↔
      ∃ key, table.ticket? key = some ticket := by
  unfold ticket?
  simp only [List.any_eq_true, beq_iff_eq, Option.map_eq_some_iff]
  constructor
  · intro hentry
    obtain ⟨⟨key, flight⟩, hmem, hticket⟩ := hentry
    exact ⟨key, flight, Assoc.get?_of_mem h hmem, hticket⟩
  · intro hkey
    obtain ⟨key, flight, hget, hticket⟩ := hkey
    exact ⟨(key, flight), Assoc.mem_of_get? hget, hticket⟩

end ClaimTable

namespace ClaimSession

variable {ν : Type} {session after : ClaimSession ν} {action : Action ν} {key : DeclarationKey}
  {slot : Nat} {wait : Wait}

/-! ## Tickets in any run -/

/-- What holds of tickets in any run: they are counted up and have one use, no key is in flight
    twice, and waits have tickets that were handed out. -/
structure Numbered (session : ClaimSession ν) : Prop extends Ticketed session where
  once : session.table.inFlight.keys.Nodup
  awaited : ∀ {slot wait}, session.wait? slot = some wait → wait.ticket < session.table.nextTicket

theorem numbered_empty : (empty : ClaimSession ν).Numbered := by
  refine ⟨coherent_empty.toTicketed, List.nodup_nil, ?_⟩
  intro slot wait hwait
  simp [empty, wait?] at hwait

/-- A publication under a key that is not in flight leaves no result. -/
theorem results_release_of_free (h : session.table.ticket? key = none) (used : Nat)
    (result : Except ResolveError ν) :
    (session.release used key result).results = session.results := by
  have hget : session.table.inFlight.get? key = none := by
    simpa [ClaimTable.ticket?] using h
  unfold release publish
  simp only [hget]

theorem Ticketed.release_of_free (h : session.Ticketed)
    (hfree : session.table.ticket? key = none) (slot : Nat) (result : Except ResolveError ν) :
    (session.release slot key result).Ticketed := by
  have hticket : ∀ other ticket, (session.release slot key result).table.ticket? other =
      some ticket → session.table.ticket? other = some ticket := by
    intro other ticket hother
    rw [ticket?_release] at hother
    split at hother
    · simp at hother
    · exact hother
  have hresults := results_release_of_free hfree slot result
  constructor
  · intro other ticket hother
    rw [hresults]
    exact h.pending (hticket other ticket hother)
  · intro other other' ticket hother hother'
    exact h.distinct (hticket other ticket hother) (hticket other' ticket hother')
  · intro ticket result' hresult'
    rw [hresults] at hresult'
    exact h.issued hresult'

theorem Ticketed.of_acts (h : session.Ticketed) (hacts : session.Acts action after) :
    after.Ticketed := by
  cases hacts with
  | idle => exact h
  | wait _ _ _ =>
    refine ⟨?_, ?_, ?_⟩ <;>
      simp only [await, ClaimTable.ticket?_noteRequest, ClaimTable.nextTicket_noteRequest]
    · exact h.pending
    · exact h.distinct
    · exact h.issued
  | owner _ _ _ => exact h.own _ _
  | @release slot key _ result _ _ =>
    cases hticket : session.table.ticket? key with
    | none => exact h.release_of_free hticket slot result
    | some ticket => exact h.release hticket slot result
  | collect _ _ => exact ⟨h.pending, h.distinct, h.issued⟩
  | put => exact ⟨h.pending, h.distinct, h.issued⟩
  | clear =>
    have hfree : ∀ key ticket, session.clear.table.ticket? key ≠ some ticket := by
      intro key ticket hticket
      simp [ClaimSession.clear, ClaimTable.clear, ClaimTable.ticket?] at hticket
    exact ⟨fun hticket => absurd hticket (hfree _ _), fun hticket => absurd hticket (hfree _ _),
      h.issued⟩

theorem Numbered.of_acts (h : session.Numbered) (hacts : session.Acts action after) :
    after.Numbered := by
  have hticketed := h.toTicketed.of_acts hacts
  cases hacts with
  | idle => exact h
  | @wait key requester ticket _ _ hticket =>
    refine ⟨hticketed, ?_, ?_⟩
    · unfold await
      rw [ClaimTable.keys_noteRequest]
      exact h.once
    · intro slot wait hwait
      unfold wait? await at hwait
      rw [join_getElem?_concat] at hwait
      simp only [await, ClaimTable.nextTicket_noteRequest]
      split at hwait
      · cases hwait
        exact (h.pending hticket).1
      · exact h.awaited hwait
  | @owner key requester _ _ _ =>
    refine ⟨hticketed, ?_, ?_⟩
    · unfold own ClaimTable.takeOff
      dsimp only
      apply Assoc.nodup_keys_insert
      rw [ClaimTable.keys_noteRequest]
      exact h.once
    · intro slot wait hwait
      rw [nextTicket_own]
      exact Nat.lt_succ_of_lt (h.awaited hwait)
  | @release slot key _ result _ _ =>
    refine ⟨hticketed, ?_, h.awaited⟩
    show (session.table.publish key result.toOption).inFlight.keys.Nodup
    rw [ClaimTable.keys_publish]
    exact h.once.filter _
  | collect _ _ =>
    refine ⟨hticketed, h.once, ?_⟩
    intro slot wait hwait
    unfold wait? at hwait
    rw [join_getElem?_set_none] at hwait
    split at hwait
    · simp at hwait
    · exact h.awaited hwait
  | put => exact ⟨hticketed, h.once, h.awaited⟩
  | clear => exact ⟨hticketed, List.nodup_nil, h.awaited⟩

theorem numbered_run (actions : List (Action ν)) :
    ((empty : ClaimSession ν).run actions).Numbered :=
  run_kept (fun session action h => h.of_acts (session.acts action)) numbered_empty actions

/-! ## What a publication touches -/

/-- A wait on another resolution sees no difference. -/
theorem Numbered.settled?_release (h : session.Numbered)
    (hne : session.table.ticket? key ≠ some wait.ticket) (used : Nat)
    (result : Except ResolveError ν) :
    (session.release used key result).settled? wait = session.settled? wait := by
  have hresults : (session.release used key result).results.get? wait.ticket =
      session.results.get? wait.ticket := by
    cases hticket : session.table.ticket? key with
    | none => rw [results_release_of_free hticket]
    | some ticket =>
      have hother : ticket ≠ wait.ticket := by
        intro heq
        exact hne (by rw [hticket, heq])
      rw [results_release hticket, Assoc.get?_insert, if_neg hother]
  have hnodup : (session.release used key result).table.inFlight.keys.Nodup := by
    show (session.table.publish key result.toOption).inFlight.keys.Nodup
    rw [ClaimTable.keys_publish]
    exact h.once.filter _
  have hany : (session.release used key result).table.inFlight.any
        (fun entry => entry.2.ticket == wait.ticket) =
      session.table.inFlight.any (fun entry => entry.2.ticket == wait.ticket) := by
    rw [Bool.eq_iff_iff, ClaimTable.any_ticket_iff hnodup, ClaimTable.any_ticket_iff h.once]
    constructor
    · intro hkey
      obtain ⟨other, hother⟩ := hkey
      rw [ticket?_release] at hother
      split at hother
      · simp at hother
      · exact ⟨other, hother⟩
    · intro hkey
      obtain ⟨other, hother⟩ := hkey
      refine ⟨other, ?_⟩
      rw [ticket?_release, if_neg]
      · exact hother
      · intro heq
        exact hne (by rw [heq, hother])
  unfold settled?
  rw [hresults, hany]

/-- A wait on the resolution that ends receives the result. -/
theorem settled?_release_of_ticket? (h : session.table.ticket? key = some wait.ticket) (used : Nat)
    (result : Except ResolveError ν) :
    (session.release used key result).settled? wait = some result := by
  unfold settled?
  rw [results_release h, Assoc.get?_insert, if_pos rfl]

/-- What the publication of a result under a key changes, and what it leaves as it is. -/
structure PublishedUnder (key : DeclarationKey) (result : Except ResolveError ν)
    (session after : ClaimSession ν) : Prop where
  /-- The only node that can change is the one of the key, and only a success changes it. -/
  nodes : ∀ other, after.table.get? other =
    if key = other then result.toOption.or (session.table.get? other) else session.table.get? other
  /-- The only resolution that ends is the one of the key. -/
  inFlight : ∀ other, after.table.ticket? other =
    if key = other then none else session.table.ticket? other
  /-- A wait on the resolution of the key receives the result. -/
  awaiting : ∀ wait : Wait, session.table.ticket? key = some wait.ticket →
    after.settled? wait = some result
  /-- No other wait is settled. -/
  others : ∀ wait : Wait, session.table.ticket? key ≠ some wait.ticket →
    after.settled? wait = session.settled? wait

theorem Numbered.publishedUnder (h : session.Numbered) (hguard : session.guard? slot = some key)
    {result : Except ResolveError ν} (hpublishes : action.Publishes slot key result) :
    PublishedUnder key result session (session.act action) := by
  rw [act_of_publishes hguard hpublishes]
  constructor
  · intro other
    exact get?_nodes_release session slot key result other
  · intro other
    exact ticket?_release session slot key result other
  · intro wait hwait
    exact settled?_release_of_ticket? hwait slot result
  · intro wait hwait
    exact h.settled?_release hwait slot result

/-! ## After a clearing -/

/-- Since the counter stood at `mark`, everything in flight was claimed. -/
structure Since (mark : Nat) (session : ClaimSession ν) : Prop where
  mark_le : mark ≤ session.table.nextTicket
  claimed : ∀ {key ticket}, session.table.ticket? key = some ticket → mark ≤ ticket

theorem since_clear (session : ClaimSession ν) : session.clear.Since session.table.nextTicket := by
  refine ⟨Nat.le_refl _, ?_⟩
  intro key ticket hticket
  simp [ClaimSession.clear, ClaimTable.clear, ClaimTable.ticket?] at hticket

theorem Since.of_acts {mark : Nat} (h : session.Since mark) (hacts : session.Acts action after) :
    after.Since mark := by
  cases hacts with
  | idle => exact h
  | wait _ _ _ =>
    refine ⟨?_, ?_⟩ <;>
      simp only [await, ClaimTable.ticket?_noteRequest, ClaimTable.nextTicket_noteRequest]
    · exact h.mark_le
    · exact h.claimed
  | owner _ _ _ =>
    refine ⟨?_, ?_⟩
    · rw [nextTicket_own]
      exact Nat.le_succ_of_le h.mark_le
    · intro other ticket hticket
      rw [ticket?_own] at hticket
      split at hticket
      · cases hticket
        exact h.mark_le
      · exact h.claimed hticket
  | release _ _ =>
    refine ⟨h.mark_le, ?_⟩
    intro other ticket hticket
    rw [ticket?_release] at hticket
    split at hticket
    · simp at hticket
    · exact h.claimed hticket
  | collect _ _ => exact ⟨h.mark_le, h.claimed⟩
  | put => exact ⟨h.mark_le, h.claimed⟩
  | clear =>
    refine ⟨h.mark_le, ?_⟩
    intro key ticket hticket
    simp [ClaimSession.clear, ClaimTable.clear, ClaimTable.ticket?] at hticket

/-- Who waits under a ticket from before the mark has been told how it ended. -/
theorem Since.exists_settled? {mark : Nat} (h : session.Since mark) (hnumbered : session.Numbered)
    (hwait : wait.ticket < mark) : ∃ seen, session.settled? wait = some seen := by
  have hany : session.table.inFlight.any (fun entry => entry.2.ticket == wait.ticket) = false := by
    rw [← Bool.not_eq_true, ClaimTable.any_ticket_iff hnumbered.once]
    intro hkey
    obtain ⟨key, hticket⟩ := hkey
    have := h.claimed hticket
    omega
  unfold settled?
  rw [hany]
  cases session.results.get? wait.ticket with
  | none => exact ⟨_, rfl⟩
  | some result => exact ⟨result, rfl⟩

/-- **What a clearing keeps apart.** After any actions the table is cleared, then any actions follow,
    and then a guard that is still live publishes, be it from before the clearing or not. The
    publication reaches the node, the resolution and the waits of its own key as they are by then, and
    no others. What is in flight by then was claimed after the clearing, and waits handed out before
    it have been settled and see nothing new. -/
theorem publication_after_clear (before between : List (Action ν)) (slot : Nat)
    (key : DeclarationKey) (action : Action ν) (result : Except ResolveError ν)
    (hguard : (((empty : ClaimSession ν).run before).clear.run between).guard? slot = some key)
    (hpublishes : action.Publishes slot key result) :
    let session := (empty : ClaimSession ν).run before
    let later := session.clear.run between
    let after := later.act action
    PublishedUnder key result later after ∧
      (∀ other ticket, later.table.ticket? other = some ticket →
        session.table.nextTicket ≤ ticket) ∧
      ∀ waiting wait, session.wait? waiting = some wait →
        ∃ seen, later.settled? wait = some seen ∧ after.settled? wait = some seen := by
  intro session later after
  have hnumbered : session.Numbered := numbered_run before
  have hcleared : session.clear.Numbered := hnumbered.of_acts .clear
  have hlater : later.Numbered :=
    run_kept (fun session action h => h.of_acts (session.acts action)) hcleared between
  have hsince : later.Since session.table.nextTicket :=
    run_kept (fun session action h => h.of_acts (session.acts action)) (since_clear session) between
  have hpublished : PublishedUnder key result later after := hlater.publishedUnder hguard hpublishes
  refine ⟨hpublished, fun other ticket hticket => hsince.claimed hticket, ?_⟩
  intro waiting wait hwait
  have hearlier : wait.ticket < session.table.nextTicket := hnumbered.awaited hwait
  obtain ⟨seen, hseen⟩ := hsince.exists_settled? hlater hearlier
  refine ⟨seen, hseen, ?_⟩
  rw [hpublished.others wait ?_, hseen]
  -- the resolution of the key is younger than the wait
  intro hticket
  have := hsince.claimed hticket
  omega

/-- A key to claim. -/
def sampleKey : DeclarationKey := ⟨"A", .classType, "sample", ⟨⟨0, 0⟩, ⟨1, 1⟩⟩⟩

/-- Someone owns a key, and someone waits for it. -/
def sampleEarly : ClaimSession Nat :=
  empty.run [.claim sampleKey none, .claim sampleKey none]

/-- After a clearing someone else owns the key, and someone else waits for it. -/
def sampleLate : ClaimSession Nat :=
  sampleEarly.clear.run [.claim sampleKey none, .claim sampleKey none]

theorem sampleLate_dropped :
    sampleLate.guard? 0 = some sampleKey ∧ sampleEarly.wait? 0 = some ⟨sampleKey, 0⟩ ∧
      ∃ seen, sampleLate.settled? ⟨sampleKey, 0⟩ = some seen ∧
        (sampleLate.act (.drop 0)).settled? ⟨sampleKey, 0⟩ = some seen := by
  have hwait : sampleEarly.wait? 0 = some ⟨sampleKey, 0⟩ := rfl
  have hguard : sampleLate.guard? 0 = some sampleKey := rfl
  obtain ⟨-, -, hwaits⟩ := publication_after_clear [.claim sampleKey none, .claim sampleKey none]
    [.claim sampleKey none, .claim sampleKey none] 0 sampleKey (.drop 0) _ hguard .drop
  exact ⟨hguard, hwait, hwaits 0 ⟨sampleKey, 0⟩ hwait⟩

/-- A guard from before a clearing can change the node table, end a resolution that was claimed after
    the clearing, and settle a wait on it. -/
theorem sampleLate_reaches_new_claim :
    sampleEarly.guard? 0 = some sampleKey ∧ sampleLate.guard? 0 = some sampleKey ∧
      sampleLate.table.get? sampleKey = none ∧
      sampleLate.table.ticket? sampleKey = some 1 ∧
      sampleLate.wait? 1 = some ⟨sampleKey, 1⟩ ∧ sampleLate.settled? ⟨sampleKey, 1⟩ = none ∧
      (sampleLate.act (.complete 0 (.ok 7))).table.get? sampleKey = some 7 ∧
      (sampleLate.act (.complete 0 (.ok 7))).table.ticket? sampleKey = none ∧
      (sampleLate.act (.complete 0 (.ok 7))).settled? ⟨sampleKey, 1⟩ = some (.ok 7) := by
  exact ⟨rfl, rfl, rfl, rfl, rfl, rfl, rfl, rfl, rfl⟩

end ClaimSession
end Lineage
