import Lineage.Proofs.Claim.Actions

set_option autoImplicit false

/-! # Guards and tickets

In an orderly run the table is cleared only while no guard is live, and nothing is put into it by hand.
Then the live guards and the resolutions in flight go together one to one (`Guarded`), and every ticket
has one use (`Ticketed`): a resolution in flight has its ticket to itself, and nothing was published
under it before. `Coherent.of_acts` shows that every action keeps this. -/

namespace Lineage

/-! ## Slots -/

theorem join_getElem?_concat {α : Type} (slots : List (Option α)) (a : α) (slot : Nat) :
    ((slots ++ [some a])[slot]?).join =
      if slot = slots.length then some a else (slots[slot]?).join := by
  by_cases h : slot = slots.length
  · rw [if_pos h, h, List.getElem?_concat_length]
    rfl
  · rw [if_neg h]
    by_cases hlt : slot < slots.length
    · rw [List.getElem?_append_left hlt]
    · rw [List.getElem?_eq_none (by simp; omega), List.getElem?_eq_none (by omega)]

theorem join_getElem?_set_none {α : Type} (slots : List (Option α)) (used slot : Nat) :
    ((slots.set used none)[slot]?).join = if used = slot then none else (slots[slot]?).join := by
  rw [List.getElem?_set]
  by_cases h : used = slot
  · rw [if_pos h, if_pos h]
    split <;> rfl
  · rw [if_neg h, if_neg h]

theorem lt_length_of_join_getElem? {α : Type} {slots : List (Option α)} {slot : Nat} {a : α}
    (h : (slots[slot]?).join = some a) : slot < slots.length := by
  by_contra hge
  rw [List.getElem?_eq_none (by omega)] at h
  cases h

namespace ClaimSession

variable {ν : Type} {session after : ClaimSession ν} {action : Action ν} {key : DeclarationKey}
  {slot : Nat}

theorem guard?_release (session : ClaimSession ν) (used : Nat) (key : DeclarationKey)
    (result : Except ResolveError ν) (slot : Nat) :
    (session.release used key result).guard? slot =
      if used = slot then none else session.guard? slot :=
  join_getElem?_set_none session.guards used slot

theorem ticket?_release (session : ClaimSession ν) (used : Nat) (key : DeclarationKey)
    (result : Except ResolveError ν) (other : DeclarationKey) :
    (session.release used key result).table.ticket? other =
      if key = other then none else session.table.ticket? other :=
  session.table.ticket?_publish key result.toOption other

theorem get?_nodes_release (session : ClaimSession ν) (used : Nat) (key : DeclarationKey)
    (result : Except ResolveError ν) (other : DeclarationKey) :
    (session.release used key result).table.nodes.get? other =
      if key = other then result.toOption.or (session.table.nodes.get? other)
      else session.table.nodes.get? other :=
  session.table.get?_nodes_publish key result.toOption other

theorem results_release {ticket : Nat} (h : session.table.ticket? key = some ticket) (used : Nat)
    (result : Except ResolveError ν) :
    (session.release used key result).results = session.results.insert ticket result := by
  obtain ⟨flight, hflight, rfl⟩ := Option.map_eq_some_iff.mp h
  unfold release publish
  simp only [hflight]

/-! ## The invariant -/

/-- In flight are exactly the keys of the live guards, each has one guard, and none is resolved. -/
structure Guarded (session : ClaimSession ν) : Prop where
  owned : ∀ key, (session.table.ticket? key).isSome ↔ ∃ slot, session.guard? slot = some key
  alone : ∀ {key slot slot'}, session.guard? slot = some key → session.guard? slot' = some key →
    slot = slot'
  unresolved : ∀ {key ticket}, session.table.ticket? key = some ticket →
    session.table.nodes.get? key = none

/-- Tickets are counted up, and results are published under tickets that are no longer in flight. -/
structure Ticketed (session : ClaimSession ν) : Prop where
  pending : ∀ {key ticket}, session.table.ticket? key = some ticket →
    ticket < session.table.nextTicket ∧ session.results.get? ticket = none
  distinct : ∀ {key other ticket}, session.table.ticket? key = some ticket →
    session.table.ticket? other = some ticket → key = other
  issued : ∀ {ticket result}, session.results.get? ticket = some result →
    ticket < session.table.nextTicket

/-- Guards and resolutions in flight go together, and every ticket has one use. -/
structure Coherent (session : ClaimSession ν) : Prop extends Guarded session, Ticketed session

theorem coherent_empty : (empty : ClaimSession ν).Coherent := by
  refine ⟨⟨?_, ?_, ?_⟩, ⟨?_, ?_, ?_⟩⟩ <;>
    simp [empty, ClaimTable.empty, ClaimTable.ticket?, guard?]

theorem Guarded.exists_ticket (h : session.Guarded) (hguard : session.guard? slot = some key) :
    ∃ ticket, session.table.ticket? key = some ticket :=
  Option.isSome_iff_exists.mp ((h.owned key).mpr ⟨slot, hguard⟩)

/-! ## New guards -/

theorem guard?_own (session : ClaimSession ν) (key : DeclarationKey)
    (requester : Option DeclarationKey) (slot : Nat) :
    (session.own key requester).guard? slot =
      if slot = session.guards.length then some key else session.guard? slot :=
  join_getElem?_concat session.guards key slot

theorem ticket?_own (session : ClaimSession ν) (key : DeclarationKey)
    (requester : Option DeclarationKey) (other : DeclarationKey) :
    (session.own key requester).table.ticket? other =
      if key = other then some session.table.nextTicket else session.table.ticket? other := by
  rw [own, ClaimTable.ticket?_takeOff, ClaimTable.ticket?_noteRequest,
    ClaimTable.nextTicket_noteRequest]

theorem nodes_own (session : ClaimSession ν) (key : DeclarationKey)
    (requester : Option DeclarationKey) :
    (session.own key requester).table.nodes = session.table.nodes := by
  rw [own, ClaimTable.nodes_takeOff, ClaimTable.nodes_noteRequest]

theorem nextTicket_own (session : ClaimSession ν) (key : DeclarationKey)
    (requester : Option DeclarationKey) :
    (session.own key requester).table.nextTicket = session.table.nextTicket + 1 := by
  rw [own, ClaimTable.nextTicket_takeOff, ClaimTable.nextTicket_noteRequest]

theorem Guarded.own (h : session.Guarded) (requester : Option DeclarationKey)
    (hnone : session.table.nodes.get? key = none) (hfree : session.table.ticket? key = none) :
    (session.own key requester).Guarded := by
  have hunowned : ∀ slot, session.guard? slot ≠ some key := by
    intro slot hguard
    obtain ⟨ticket, hticket⟩ := h.exists_ticket hguard
    rw [hfree] at hticket
    cases hticket
  constructor
  · intro other
    simp only [guard?_own, ticket?_own]
    by_cases heq : key = other
    · subst heq
      exact iff_of_true (by simp) ⟨session.guards.length, by simp⟩
    · rw [if_neg heq, h.owned other]
      constructor
      · rintro ⟨slot, hguard⟩
        have hlt := lt_length_of_join_getElem? hguard
        exact ⟨slot, by rw [if_neg (by omega)]; exact hguard⟩
      · rintro ⟨slot, hguard⟩
        split at hguard
        · cases hguard
          exact absurd rfl heq
        · exact ⟨slot, hguard⟩
  · intro other slot slot' hguard hguard'
    rw [guard?_own] at hguard hguard'
    split at hguard <;> split at hguard'
    · omega
    · cases hguard
      exact absurd hguard' (hunowned slot')
    · cases hguard'
      exact absurd hguard (hunowned slot)
    · exact h.alone hguard hguard'
  · intro other ticket hticket
    rw [ticket?_own] at hticket
    rw [nodes_own]
    split at hticket
    · next heq => rw [← heq]; exact hnone
    · exact h.unresolved hticket

theorem Ticketed.own (h : session.Ticketed) (key : DeclarationKey)
    (requester : Option DeclarationKey) : (session.own key requester).Ticketed := by
  have hfresh : ∀ ticket result, session.results.get? ticket = some result →
      ticket ≠ session.table.nextTicket := by
    intro ticket result hresult
    have := h.issued hresult
    omega
  have hold : ∀ other ticket, session.table.ticket? other = some ticket →
      ticket < session.table.nextTicket := fun other ticket hticket => (h.pending hticket).1
  constructor
  · intro other ticket hticket
    rw [ticket?_own] at hticket
    rw [nextTicket_own]
    split at hticket
    · cases hticket
      refine ⟨by omega, ?_⟩
      -- the new ticket is above all that have been published
      by_contra hsome
      obtain ⟨result, hresult⟩ := Option.ne_none_iff_exists'.mp hsome
      exact hfresh _ result hresult rfl
    · have := hold other ticket hticket
      exact ⟨by omega, (h.pending hticket).2⟩
  · intro key' other ticket hticket hticket'
    rw [ticket?_own] at hticket hticket'
    split at hticket <;> split at hticket'
    · next heq heq' => rw [← heq, ← heq']
    · cases hticket
      have := hold other _ hticket'
      omega
    · cases hticket'
      have := hold key' _ hticket
      omega
    · exact h.distinct hticket hticket'
  · intro ticket result hresult
    rw [nextTicket_own]
    have := h.issued hresult
    omega

/-! ## Used guards -/

theorem Guarded.release (h : session.Guarded) (hguard : session.guard? slot = some key)
    (result : Except ResolveError ν) : (session.release slot key result).Guarded := by
  constructor
  · intro other
    simp only [ticket?_release, guard?_release]
    by_cases heq : key = other
    · subst heq
      refine iff_of_false (by simp) ?_
      rintro ⟨slot', hguard'⟩
      split at hguard'
      · cases hguard'
      · next hne => exact hne (h.alone hguard hguard')
    · rw [if_neg heq, h.owned other]
      constructor
      · rintro ⟨slot', hguard'⟩
        refine ⟨slot', ?_⟩
        rw [if_neg]
        · exact hguard'
        · rintro rfl
          rw [hguard] at hguard'
          cases hguard'
          exact heq rfl
      · rintro ⟨slot', hguard'⟩
        split at hguard'
        · cases hguard'
        · exact ⟨slot', hguard'⟩
  · intro other slot₁ slot₂ hguard₁ hguard₂
    rw [guard?_release] at hguard₁ hguard₂
    split at hguard₁
    · cases hguard₁
    · split at hguard₂
      · cases hguard₂
      · exact h.alone hguard₁ hguard₂
  · intro other ticket hticket
    rw [ticket?_release] at hticket
    split at hticket
    · cases hticket
    · next hne => rw [get?_nodes_release, if_neg hne]; exact h.unresolved hticket

theorem Ticketed.release (h : session.Ticketed) {ticket : Nat}
    (hticket : session.table.ticket? key = some ticket) (slot : Nat)
    (result : Except ResolveError ν) : (session.release slot key result).Ticketed := by
  constructor
  · intro other ticket' hticket'
    rw [ticket?_release] at hticket'
    split at hticket'
    · cases hticket'
    · next hne =>
      refine ⟨(h.pending hticket').1, ?_⟩
      rw [results_release hticket, Assoc.get?_insert, if_neg]
      · exact (h.pending hticket').2
      · rintro rfl
        exact hne (h.distinct hticket hticket')
  · intro key' other ticket' hticket₁ hticket₂
    rw [ticket?_release] at hticket₁ hticket₂
    split at hticket₁
    · cases hticket₁
    · split at hticket₂
      · cases hticket₂
      · exact h.distinct hticket₁ hticket₂
  · intro ticket' result' hresult'
    rw [results_release hticket, Assoc.get?_insert] at hresult'
    split at hresult'
    · next heq => rw [← heq]; exact (h.pending hticket).1
    · exact h.issued hresult'

theorem Coherent.release (h : session.Coherent) (hguard : session.guard? slot = some key)
    (result : Except ResolveError ν) : (session.release slot key result).Coherent := by
  obtain ⟨ticket, hticket⟩ := h.exists_ticket hguard
  exact ⟨h.toGuarded.release hguard result, h.toTicketed.release hticket slot result⟩

/-! ## Orderly runs -/

/-- Nothing is put into the table by hand, and it is cleared only while no guard is live. -/
def Orderly (session : ClaimSession ν) : Action ν → Prop
  | .put _ _ => False
  | .clear => ∀ guard ∈ session.guards, guard = none
  | _ => True

theorem Orderly.guard?_eq_none (h : session.Orderly .clear) (slot : Nat) :
    session.guard? slot = none := by
  unfold guard?
  cases hguard : session.guards[slot]? with
  | none => rfl
  | some guard =>
    rw [h guard (List.mem_of_getElem? hguard)]
    rfl

theorem Coherent.of_acts (h : session.Coherent) (horderly : session.Orderly action)
    (hacts : session.Acts action after) : after.Coherent := by
  cases hacts with
  | idle => exact h
  | wait _ _ _ =>
    -- only dependencies and waits change
    refine ⟨⟨?_, h.alone, ?_⟩, ⟨?_, ?_, ?_⟩⟩
    all_goals
      simp only [await, ClaimTable.ticket?_noteRequest, ClaimTable.nodes_noteRequest,
        ClaimTable.nextTicket_noteRequest]
    · exact h.owned
    · exact h.unresolved
    · exact h.pending
    · exact h.distinct
    · exact h.issued
  | owner hnone _ hfree => exact ⟨h.toGuarded.own _ hnone hfree, h.toTicketed.own _ _⟩
  | release hguard _ => exact h.release hguard _
  | collect _ _ => exact ⟨⟨h.owned, h.alone, h.unresolved⟩, ⟨h.pending, h.distinct, h.issued⟩⟩
  | put => exact horderly.elim
  | clear =>
    -- no guard is live, so nothing was in flight
    have hnone : ∀ slot, session.clear.guard? slot = none := horderly.guard?_eq_none
    have hfree : ∀ key, session.clear.table.ticket? key = none := fun _ => rfl
    refine ⟨⟨?_, h.alone, ?_⟩, ⟨?_, ?_, h.issued⟩⟩
    · intro key
      simp [hnone, hfree]
    · rintro key ticket ⟨⟩
    · rintro key ticket ⟨⟩
    · rintro key other ticket ⟨⟩

theorem Coherent.run (h : session.Coherent) {actions : List (Action ν)}
    (horderly : Along Orderly session actions) : (session.run actions).Coherent :=
  run_invariant (fun session action h horderly => h.of_acts horderly (session.acts action)) h
    horderly

end ClaimSession
end Lineage
