import Lineage.Proofs.Claim.Actions
import Mathlib.Data.Fintype.EquivFin
import Mathlib.Order.WellFounded

set_option autoImplicit false

/-! # Waiting never deadlocks

Whatever is done with a session, the dependencies between its resolutions stay `Ordered`: they lead to
resolutions in flight only, and never in a circle. So among the resolutions in flight there is always
one that waits for nothing. A claim that is granted adds at most one dependency, and not one that could
be followed back; a publication takes dependencies away; nothing else touches them. -/

namespace Lineage

open Relation

/-- If one edge is added to a relation, new paths lead through this edge. -/
theorem transGen_of_added {α : Type} {r r' : α → α → Prop} {a b : α}
    (hadded : ∀ x y, r' x y → r x y ∨ x = a ∧ y = b) {x y : α} (h : TransGen r' x y) :
    TransGen r x y ∨ ReflTransGen r x a ∧ ReflTransGen r b y := by
  induction h with
  | single hstep =>
    rcases hadded _ _ hstep with hold | ⟨rfl, rfl⟩
    · exact .inl (.single hold)
    · exact .inr ⟨.refl, .refl⟩
  | tail _ hstep ih =>
    rcases hadded _ _ hstep with hold | ⟨rfl, rfl⟩
    · rcases ih with hpath | ⟨hto, hfrom⟩
      · exact .inl (.tail hpath hold)
      · exact .inr ⟨hto, .tail hfrom hold⟩
    · rcases ih with hpath | ⟨hto, -⟩
      · exact .inr ⟨hpath.to_reflTransGen, .refl⟩
      · exact .inr ⟨hto, .refl⟩

namespace ClaimTable

variable {ν : Type} {table after : ClaimTable ν} {key : DeclarationKey}
  {requester : Option DeclarationKey}

/-- Dependencies lead to resolutions in flight, and never in a circle. -/
structure Ordered (table : ClaimTable ν) : Prop where
  closed : ∀ holder next, DependsOn table.inFlight holder next → next ∈ table.inFlight.keys
  acyclic : ∀ holder, ¬ TransGen (DependsOn table.inFlight) holder holder

theorem ordered_of_inFlight_eq_nil (h : table.inFlight = []) : table.Ordered := by
  have hnone : ∀ holder next, ¬ DependsOn table.inFlight holder next := by
    rintro holder next ⟨flight, hflight, -⟩
    rw [h] at hflight
    cases hflight
  constructor
  · intro holder next hstep
    exact absurd hstep (hnone holder next)
  · intro holder hcycle
    obtain ⟨next, hstep, -⟩ := TransGen.head'_iff.mp hcycle
    exact hnone holder next hstep

/-! ## Claims -/

theorem dependsOn_of_noteRequest {holder holder' next : DeclarationKey}
    (h : DependsOn (table.noteRequest key (some holder)).inFlight holder' next) :
    DependsOn table.inFlight holder' next ∨ holder' = holder ∧ next = key := by
  rw [dependsOn_noteRequest_iff, Option.mem_some_iff] at h
  rcases h with hold | ⟨rfl, -, rfl⟩
  · exact .inl hold
  · exact .inr ⟨rfl, rfl⟩

/-- A request that closes no cycle makes none. -/
theorem Ordered.acyclic_noteRequest (h : table.Ordered) (hcloses : ¬ table.Closes key requester)
    (holder : DeclarationKey) :
    ¬ TransGen (DependsOn (table.noteRequest key requester).inFlight) holder holder := by
  intro hcycle
  cases requester with
  | none => exact h.acyclic holder hcycle
  | some requester =>
    rcases transGen_of_added (fun _ _ => dependsOn_of_noteRequest) hcycle with hold | ⟨hto, hfrom⟩
    · exact h.acyclic holder hold
    · exact hcloses ⟨requester, rfl, hfrom.trans hto⟩

/-- Who waits on a key is not reached from it, also with the new dependency. -/
theorem not_reaches_noteRequest {holder : DeclarationKey}
    (hcloses : ¬ table.Closes key (some holder)) :
    ¬ Reaches (table.noteRequest key (some holder)).inFlight key holder := by
  intro hreaches
  rcases reflTransGen_iff_eq_or_transGen.mp hreaches with heq | hpath
  · subst heq
    exact hcloses ⟨holder, rfl, .refl⟩
  · rcases transGen_of_added (fun _ _ => dependsOn_of_noteRequest) hpath with hold | ⟨-, hfrom⟩
    · exact hcloses ⟨holder, rfl, hold.to_reflTransGen⟩
    · exact hcloses ⟨holder, rfl, hfrom⟩

theorem Ordered.of_grants (h : table.Ordered) {answer : Claim ν}
    (hgrants : table.Grants key requester answer after) : after.Ordered := by
  cases hgrants with
  | ready _ => exact h
  | wait _ hcloses hticket =>
    refine ⟨?_, h.acyclic_noteRequest hcloses⟩
    intro holder next hstep
    rw [mem_keys_iff_ticket?, ticket?_noteRequest, ← mem_keys_iff_ticket?]
    rcases dependsOn_noteRequest_iff.mp hstep with hold | ⟨-, -, rfl⟩
    · exact h.closed holder next hold
    · rw [mem_keys_iff_ticket?, hticket]
      rfl
  | owner _ hcloses _ =>
    have hold : ∀ holder next,
        DependsOn ((table.noteRequest key requester).takeOff key).inFlight holder next →
          DependsOn (table.noteRequest key requester).inFlight holder next :=
      fun _ _ hstep => (dependsOn_takeOff_iff.mp hstep).2
    constructor
    · intro holder next hstep
      rw [mem_keys_iff_ticket?, ticket?_takeOff]
      by_cases hkey : key = next
      · rw [if_pos hkey]
        rfl
      · rw [if_neg hkey, ticket?_noteRequest, ← mem_keys_iff_ticket?]
        rcases dependsOn_noteRequest_iff.mp (hold holder next hstep) with hstep | ⟨-, -, rfl⟩
        · exact h.closed holder next hstep
        · exact absurd rfl hkey
    · intro holder hcycle
      exact h.acyclic_noteRequest hcloses holder (TransGen.mono hold _ _ hcycle)

/-! ## Publications -/

theorem Ordered.publish (h : table.Ordered) (key : DeclarationKey) (node : Option ν) :
    (table.publish key node).Ordered := by
  constructor
  · intro holder next hstep
    obtain ⟨-, hne, hold⟩ := dependsOn_publish_iff.mp hstep
    rw [mem_keys_iff_ticket?, ticket?_publish, if_neg hne, ← mem_keys_iff_ticket?]
    exact h.closed holder next hold
  · intro holder hcycle
    exact h.acyclic holder
      (TransGen.mono (fun _ _ hstep => (dependsOn_publish_iff.mp hstep).2.2) _ _ hcycle)

/-! ## A resolution that waits for nothing -/

/-- In a finite graph without cycles, some vertex has no edge to another one. -/
theorem Ordered.exists_waiting_for_none (h : table.Ordered) (hne : table.inFlight ≠ []) :
    ∃ holder ∈ table.inFlight.keys,
      ∀ next ∈ table.inFlight.keys, ¬ DependsOn table.inFlight holder next := by
  -- the resolutions in flight, each below those that lead to it
  let below (a b : { key // key ∈ table.inFlight.keys }) : Prop :=
    TransGen (DependsOn table.inFlight) b.1 a.1
  have : IsTrans _ below := ⟨fun _ _ _ hab hbc => hbc.trans hab⟩
  have : Std.Irrefl below := ⟨fun a hcycle => h.acyclic a.1 hcycle⟩
  have hwf : WellFounded below := Finite.wellFounded_of_trans_of_irrefl below
  obtain ⟨entry, rest, hentries⟩ := List.exists_cons_of_ne_nil hne
  have hentry : entry.1 ∈ table.inFlight.keys := by
    rw [hentries]
    exact List.mem_cons_self
  obtain ⟨least, -, hleast⟩ := hwf.has_min Set.univ ⟨⟨entry.1, hentry⟩, trivial⟩
  refine ⟨least.1, least.2, ?_⟩
  intro next hnext hstep
  exact hleast ⟨next, hnext⟩ trivial (.single hstep)

end ClaimTable

namespace ClaimSession

open ClaimTable

variable {ν : Type}

theorem ordered_of_acts {session after : ClaimSession ν} {action : Action ν}
    (h : session.table.Ordered) (hacts : session.Acts action after) : after.table.Ordered := by
  cases hacts with
  | idle => exact h
  | wait hnone hcloses hticket => exact h.of_grants (.wait hnone hcloses hticket)
  | owner hnone hcloses hfree => exact h.of_grants (.owner hnone hcloses hfree)
  | release _ _ => exact h.publish _ _
  | collect _ _ => exact h
  | put => exact ⟨h.closed, h.acyclic⟩
  | clear => exact ordered_of_inFlight_eq_nil rfl

theorem ordered_run (actions : List (Action ν)) :
    ((empty : ClaimSession ν).run actions).table.Ordered :=
  run_kept (I := fun session => session.table.Ordered)
    (fun session action h => ordered_of_acts h (session.acts action))
    (ordered_of_inFlight_eq_nil rfl) actions

/-- **Waiting never deadlocks.** After any actions on an empty session, dependencies lead to
    resolutions in flight and never in a circle; if anything is in flight, some resolution waits for
    nothing in flight; and where a claim is told to wait, its requester is not reached from the claimed
    key, neither before the claim nor with the dependency that the claim adds. -/
theorem run_never_deadlocks (actions : List (Action ν)) :
    let session := (empty : ClaimSession ν).run actions
    let inFlight := session.table.inFlight
    (∀ holder next, DependsOn inFlight holder next → next ∈ inFlight.keys) ∧
      (∀ holder, ¬ TransGen (DependsOn inFlight) holder holder) ∧
      (inFlight ≠ [] →
        ∃ holder ∈ inFlight.keys, ∀ next ∈ inFlight.keys, ¬ DependsOn inFlight holder next) ∧
      ∀ key holder slot after, session.claim key (some holder) = .ok (.wait slot, after) →
        ¬ Reaches inFlight key holder ∧ ¬ Reaches after.table.inFlight key holder := by
  intro session inFlight
  have hordered : session.table.Ordered := ordered_run actions
  refine ⟨hordered.closed, hordered.acyclic, hordered.exists_waiting_for_none, ?_⟩
  intro key holder slot after hclaim
  rcases claim_cases hclaim with ⟨_, -, ⟨⟩, -⟩ | ⟨-, hcloses, ⟨_, -, -, rfl⟩ | ⟨-, ⟨⟩, -⟩⟩
  constructor
  · intro hreaches
    exact hcloses ⟨holder, rfl, hreaches⟩
  · exact not_reaches_noteRequest hcloses

end ClaimSession
end Lineage
