import Lineage.Proofs.Claim.Chain
import Mathlib.Logic.Relation

set_option autoImplicit false

/-! # Tickets and dependencies of a claim table

What is in flight can be seen in two ways: `ticket?` tells under which ticket a key is being resolved,
`DependsOn` which keys a resolution has claimed. Each operation of the table has one lemma for each of
them, and the proofs about runs use these lemmas only.

A claim is refused if it closes a cycle: its requester can already be reached from the claimed key.
The search that decides this takes each resolution out of the graph when it explores it. Nothing is
lost by that, since a path that comes back to a resolution can be cut short (`reaches_erase`), so the
search finds a path exactly if there is one. `Grants` says all that a claim can be answered with. -/

namespace Lineage
namespace ClaimTable

open Relation

variable {ν : Type} {entries : Assoc DeclarationKey Flight} {key other start goal : DeclarationKey}

/-! ## Dependencies -/

/-- The resolution of `key` is in flight and has claimed `next`. -/
def DependsOn (entries : Assoc DeclarationKey Flight) (key next : DeclarationKey) : Prop :=
  ∃ flight, entries.get? key = some flight ∧ next ∈ flight.dependsOn

/-- One key leads to another along dependencies, in any number of steps. -/
abbrev Reaches (entries : Assoc DeclarationKey Flight) : DeclarationKey → DeclarationKey → Prop :=
  ReflTransGen (DependsOn entries)

theorem dependsOn_erase_iff {next : DeclarationKey} :
    DependsOn (entries.erase key) other next ↔ key ≠ other ∧ DependsOn entries other next := by
  unfold DependsOn
  rw [Assoc.get?_erase]
  by_cases h : key = other
  · simp [h]
  · simp [h]

/-- A key that is not in flight leads nowhere. -/
theorem Reaches.eq_of_get?_eq_none (hnone : entries.get? start = none)
    (h : Reaches entries start goal) : start = goal := by
  rcases h.cases_head with heq | ⟨next, ⟨flight, hflight, -⟩, -⟩
  · exact heq
  · rw [hnone] at hflight
    cases hflight

theorem Reaches.of_erase (h : Reaches (entries.erase key) start goal) :
    Reaches entries start goal :=
  ReflTransGen.mono (fun _ _ hstep => (dependsOn_erase_iff.mp hstep).2) _ _ h

/-- A path either avoids a key or can be taken up behind its last visit there. -/
theorem reaches_erase (key : DeclarationKey) (h : Reaches entries start goal) :
    Reaches (entries.erase key) start goal ∨
      ∃ next, DependsOn entries key next ∧ Reaches (entries.erase key) next goal := by
  induction h using ReflTransGen.head_induction_on with
  | refl => exact .inl .refl
  | @head first second hstep _ ih =>
    rcases ih with havoids | hvisits
    · by_cases hkey : key = first
      · subst hkey
        exact .inr ⟨second, hstep, havoids⟩
      · exact .inl (.head (dependsOn_erase_iff.mpr ⟨hkey, hstep⟩) havoids)
    · exact .inr hvisits

/-! ## The search -/

/-- The search fails exactly if the goal cannot be reached from any of the pending paths. -/
theorem search_eq_none_iff (goal : DeclarationKey) (unexplored : Assoc DeclarationKey Flight)
    (pending : List (DeclarationKey × List DeclarationKey)) :
    search goal unexplored pending = none ↔
      ∀ path ∈ pending, ¬ Reaches unexplored path.1 goal := by
  fun_induction search goal unexplored pending with
  | case1 => simp
  | case2 unexplored before pending =>
    refine iff_of_false (by simp) ?_
    intro h
    exact h _ List.mem_cons_self .refl
  | case3 unexplored last before pending hne hnone ih =>
    rw [ih, List.forall_mem_cons]
    have hlast : ¬ Reaches unexplored last goal := by
      intro h
      exact hne (h.eq_of_get?_eq_none hnone)
    exact ⟨fun h => ⟨hlast, h⟩, fun h => h.2⟩
  | case4 unexplored last before pending hne flight hflight _ ih =>
    rw [ih, List.forall_mem_append, List.forall_mem_map, List.forall_mem_cons]
    have hdepends : ∀ next, DependsOn unexplored last next ↔ next ∈ flight.dependsOn := by
      intro next
      simp [DependsOn, hflight]
    constructor
    · rintro ⟨hnext, hpending⟩
      have hvisits : ¬ ∃ next, DependsOn unexplored last next ∧
          Reaches (unexplored.erase last) next goal := by
        rintro ⟨next, hstep, hreaches⟩
        exact hnext next ((hdepends next).mp hstep) hreaches
      constructor
      · intro hreaches
        -- once it is taken out, `last` leads nowhere
        have herased : (unexplored.erase last).get? last = none := by
          rw [Assoc.get?_erase, if_pos rfl]
        rcases reaches_erase last hreaches with havoids | hback
        · exact hne (Reaches.eq_of_get?_eq_none herased havoids)
        · exact hvisits hback
      · intro path hpath hreaches
        rcases reaches_erase last hreaches with havoids | hback
        · exact hpending path hpath havoids
        · exact hvisits hback
    · rintro ⟨hlast, hpending⟩
      constructor
      · intro next hnext hreaches
        exact hlast (.head ((hdepends next).mpr hnext) (Reaches.of_erase hreaches))
      · intro path hpath hreaches
        exact hpending path hpath (Reaches.of_erase hreaches)

theorem dependencyPath?_eq_none_iff (table : ClaimTable ν) (start goal : DeclarationKey) :
    table.dependencyPath? start goal = none ↔ ¬ Reaches table.inFlight start goal := by
  rw [dependencyPath?, search_eq_none_iff]
  simp

/-! ## What a claim does to the table -/

variable {table : ClaimTable ν} {requester : Option DeclarationKey}

/-- The ticket under which a key is being resolved. -/
def ticket? (table : ClaimTable ν) (key : DeclarationKey) : Option Nat :=
  (table.inFlight.get? key).map Flight.ticket

theorem mem_keys_iff_ticket? : key ∈ table.inFlight.keys ↔ (table.ticket? key).isSome := by
  rw [Assoc.mem_keys_iff, ticket?, Option.isSome_map]

/-- The table with a claim of `key` among the dependencies of the requester, if there is one. -/
def noteRequest (table : ClaimTable ν) (key : DeclarationKey) :
    Option DeclarationKey → ClaimTable ν
  | none => table
  | some requester => table.addDependency requester key

/-- The table with a new resolution of `key` in flight. -/
def takeOff (table : ClaimTable ν) (key : DeclarationKey) : ClaimTable ν :=
  { table with
    inFlight := table.inFlight.insert key ⟨table.nextTicket, []⟩
    nextTicket := table.nextTicket + 1 }

/-- A claim of `key` would close a cycle of dependencies. -/
def Closes (table : ClaimTable ν) (key : DeclarationKey) (requester : Option DeclarationKey) : Prop :=
  ∃ holder ∈ requester, Reaches table.inFlight key holder

/-- The answers that a claim can get, with what they presuppose and the table they leave. -/
inductive Grants (table : ClaimTable ν) (key : DeclarationKey) (requester : Option DeclarationKey) :
    Claim ν → ClaimTable ν → Prop where
  | ready {node : ν} : table.nodes.get? key = some node →
      Grants table key requester (.ready node) table
  | wait {ticket : Nat} : table.nodes.get? key = none → ¬ table.Closes key requester →
      table.ticket? key = some ticket →
      Grants table key requester (.wait ticket) (table.noteRequest key requester)
  | owner : table.nodes.get? key = none → ¬ table.Closes key requester →
      table.ticket? key = none →
      Grants table key requester .owner ((table.noteRequest key requester).takeOff key)

/-- A request is recorded if its requester is in flight, and else changes nothing. -/
theorem noteRequest_cases (table : ClaimTable ν) (key : DeclarationKey)
    (requester : Option DeclarationKey) :
    (table.noteRequest key requester = table ∧
        ∀ holder ∈ requester, table.inFlight.get? holder = none) ∨
      ∃ holder flight, requester = some holder ∧ table.inFlight.get? holder = some flight ∧
        table.noteRequest key requester =
          { table with
            inFlight := table.inFlight.insert holder
              { flight with dependsOn := flight.dependsOn.insert key } } := by
  cases requester with
  | none => exact .inl ⟨rfl, by simp⟩
  | some holder =>
    rw [noteRequest, addDependency]
    cases hget : table.inFlight.get? holder with
    | none => exact .inl ⟨rfl, by simpa using hget⟩
    | some flight => exact .inr ⟨holder, flight, rfl, hget, rfl⟩

@[simp] theorem nodes_noteRequest (table : ClaimTable ν) (key : DeclarationKey)
    (requester : Option DeclarationKey) :
    (table.noteRequest key requester).nodes = table.nodes := by
  rcases table.noteRequest_cases key requester with ⟨h, -⟩ | ⟨_, _, -, -, h⟩ <;> rw [h]

@[simp] theorem nextTicket_noteRequest (table : ClaimTable ν) (key : DeclarationKey)
    (requester : Option DeclarationKey) :
    (table.noteRequest key requester).nextTicket = table.nextTicket := by
  rcases table.noteRequest_cases key requester with ⟨h, -⟩ | ⟨_, _, -, -, h⟩ <;> rw [h]

/-- A request changes nothing but the dependencies of its requester. -/
theorem get?_noteRequest (hother : ∀ holder ∈ requester, holder ≠ other) :
    (table.noteRequest key requester).inFlight.get? other = table.inFlight.get? other := by
  rcases table.noteRequest_cases key requester with ⟨h, -⟩ | ⟨holder, flight, rfl, -, h⟩
  · rw [h]
  · rw [h]
    dsimp only
    rw [Assoc.get?_insert, if_neg (hother holder rfl)]

@[simp] theorem ticket?_noteRequest (table : ClaimTable ν) (key : DeclarationKey)
    (requester : Option DeclarationKey) (other : DeclarationKey) :
    (table.noteRequest key requester).ticket? other = table.ticket? other := by
  rcases table.noteRequest_cases key requester with ⟨h, -⟩ | ⟨holder, flight, rfl, hget, h⟩
  · rw [h]
  · rw [h, ticket?, ticket?]
    dsimp only
    rw [Assoc.get?_insert]
    by_cases heq : holder = other
    · subst heq
      rw [if_pos rfl, hget]
      rfl
    · rw [if_neg heq]

theorem dependsOn_noteRequest_iff {holder next : DeclarationKey} :
    DependsOn (table.noteRequest key requester).inFlight holder next ↔
      DependsOn table.inFlight holder next ∨
        holder ∈ requester ∧ holder ∈ table.inFlight.keys ∧ next = key := by
  rcases table.noteRequest_cases key requester with ⟨h, hnone⟩ | ⟨holder', flight, rfl, hget, h⟩
  · rw [h, iff_self_or]
    rintro ⟨hholder, hmem, -⟩
    rw [Assoc.mem_keys_iff, hnone holder hholder] at hmem
    cases hmem
  · rw [h, DependsOn, DependsOn, Assoc.mem_keys_iff]
    dsimp only
    rw [Assoc.get?_insert]
    by_cases heq : holder' = holder
    · subst heq
      simp [hget, or_comm]
    · simp [heq]

@[simp] theorem nodes_takeOff (table : ClaimTable ν) (key : DeclarationKey) :
    (table.takeOff key).nodes = table.nodes := rfl

@[simp] theorem nextTicket_takeOff (table : ClaimTable ν) (key : DeclarationKey) :
    (table.takeOff key).nextTicket = table.nextTicket + 1 := rfl

theorem ticket?_takeOff (table : ClaimTable ν) (key other : DeclarationKey) :
    (table.takeOff key).ticket? other =
      if key = other then some table.nextTicket else table.ticket? other := by
  unfold takeOff ticket?
  dsimp only
  rw [Assoc.get?_insert]
  by_cases h : key = other
  · rw [if_pos h, if_pos h]
    rfl
  · rw [if_neg h, if_neg h]

/-- A resolution that has just begun depends on nothing. -/
theorem dependsOn_takeOff_iff {holder next : DeclarationKey} :
    DependsOn (table.takeOff key).inFlight holder next ↔
      key ≠ holder ∧ DependsOn table.inFlight holder next := by
  unfold takeOff DependsOn
  dsimp only
  rw [Assoc.get?_insert]
  by_cases h : key = holder
  · simp [h]
  · simp [h]

theorem claim_of_closes (hnone : table.nodes.get? key = none) (h : table.Closes key requester) :
    ∃ cycle, table.claim key requester = .error cycle := by
  obtain ⟨holder, hholder, hreaches⟩ := h
  obtain rfl := Option.mem_def.mp hholder
  have hpath : table.dependencyPath? key holder ≠ none := by
    intro hpath
    exact (dependencyPath?_eq_none_iff table key holder).mp hpath hreaches
  obtain ⟨path, hpath⟩ := Option.ne_none_iff_exists'.mp hpath
  refine ⟨path ++ [key], ?_⟩
  unfold claim
  rw [hnone]
  dsimp only
  rw [hpath]

theorem claim_of_not_closes (hnone : table.nodes.get? key = none)
    (h : ¬ table.Closes key requester) :
    table.claim key requester = .ok ((table.noteRequest key requester).enter key) := by
  unfold claim
  rw [hnone]
  cases requester with
  | none => rfl
  | some holder =>
    have hpath : table.dependencyPath? key holder = none := by
      rw [dependencyPath?_eq_none_iff]
      intro hreaches
      exact h ⟨holder, rfl, hreaches⟩
    dsimp only
    rw [hpath]
    rfl

/-- Who closes no cycle is another one than the claimed key, so its entry stays as it is. -/
theorem get?_noteRequest_of_not_closes (h : ¬ table.Closes key requester) :
    (table.noteRequest key requester).inFlight.get? key = table.inFlight.get? key := by
  refine get?_noteRequest ?_
  rintro holder hholder rfl
  exact h ⟨holder, hholder, .refl⟩

/-- All that a claim can be answered with, unless it is refused. -/
theorem grants_of_claim {answer : Claim ν} {after : ClaimTable ν}
    (h : table.claim key requester = .ok (answer, after)) :
    table.Grants key requester answer after := by
  cases hnode : table.nodes.get? key with
  | some node =>
    rw [claim_of_resolved requester hnode] at h
    cases h
    exact .ready hnode
  | none =>
    by_cases hcloses : table.Closes key requester
    · obtain ⟨cycle, hcycle⟩ := claim_of_closes hnode hcloses
      rw [hcycle] at h
      cases h
    · rw [claim_of_not_closes hnode hcloses, enter,
        get?_noteRequest_of_not_closes hcloses] at h
      cases hflight : table.inFlight.get? key with
      | some flight =>
        rw [hflight] at h
        cases h
        exact .wait hnode hcloses (by rw [ticket?, hflight]; rfl)
      | none =>
        rw [hflight] at h
        cases h
        exact .owner hnode hcloses (by rw [ticket?, hflight]; rfl)

/-- A claim is refused only if it closes a cycle. -/
theorem closes_of_claim_error {cycle : List DeclarationKey}
    (h : table.claim key requester = .error cycle) : table.Closes key requester := by
  cases hnode : table.nodes.get? key with
  | some node =>
    rw [claim_of_resolved requester hnode] at h
    cases h
  | none =>
    by_contra hcloses
    rw [claim_of_not_closes hnode hcloses] at h
    cases h

/-- The next claim of a key that is neither resolved nor in flight is granted. -/
theorem claim_of_free (hnone : table.nodes.get? key = none) (hticket : table.ticket? key = none)
    (h : ¬ table.Closes key requester) :
    table.claim key requester = .ok (.owner, (table.noteRequest key requester).takeOff key) := by
  have hget : table.inFlight.get? key = none := Option.map_eq_none_iff.mp hticket
  rw [claim_of_not_closes hnone h, enter, get?_noteRequest_of_not_closes h, hget]
  rfl

/-! ## What a publication does to the table -/

theorem get?_publish (table : ClaimTable ν) (key : DeclarationKey) (node : Option ν)
    (other : DeclarationKey) :
    (table.publish key node).inFlight.get? other =
      if key = other then none
      else (table.inFlight.get? other).map fun flight =>
        { flight with dependsOn := flight.dependsOn.filter (· ≠ key) } := by
  have hmap : ∀ (release : DeclarationKey × Flight → DeclarationKey × Flight)
      (entries : Assoc DeclarationKey Flight), (∀ entry, release entry = (entry.1,
        { entry.2 with dependsOn := entry.2.dependsOn.filter (· ≠ key) })) →
      Assoc.get? (entries.map release) other = (entries.get? other).map fun flight =>
        { flight with dependsOn := flight.dependsOn.filter (· ≠ key) } := by
    intro release entries hrelease
    induction entries with
    | nil => rfl
    | cons entry rest ih =>
      rw [List.map_cons, hrelease, Assoc.get?, Assoc.get?, ih]
      split <;> rfl
  unfold publish
  dsimp only
  rw [hmap _ _ fun _ => rfl, Assoc.get?_erase]
  split <;> rfl

theorem ticket?_publish (table : ClaimTable ν) (key : DeclarationKey) (node : Option ν)
    (other : DeclarationKey) :
    (table.publish key node).ticket? other = if key = other then none else table.ticket? other := by
  unfold ticket?
  rw [get?_publish]
  split
  · rfl
  · rw [Option.map_map]
    rfl

theorem dependsOn_publish_iff {node : Option ν} {holder next : DeclarationKey} :
    DependsOn (table.publish key node).inFlight holder next ↔
      key ≠ holder ∧ key ≠ next ∧ DependsOn table.inFlight holder next := by
  unfold DependsOn
  rw [get?_publish]
  by_cases h : key = holder
  · simp [h]
  · rw [if_neg h]
    constructor
    · rintro ⟨flight', hflight', hnext⟩
      obtain ⟨flight, hflight, rfl⟩ := Option.map_eq_some_iff.mp hflight'
      rw [List.mem_filter, decide_eq_true_iff] at hnext
      exact ⟨h, fun heq => hnext.2 heq.symm, flight, hflight, hnext.1⟩
    · rintro ⟨-, hne, flight, hflight, hnext⟩
      refine ⟨_, Option.map_eq_some_iff.mpr ⟨flight, hflight, rfl⟩, ?_⟩
      rw [List.mem_filter, decide_eq_true_iff]
      exact ⟨hnext, fun heq => hne heq.symm⟩

theorem get?_nodes_publish (table : ClaimTable ν) (key : DeclarationKey) (node : Option ν)
    (other : DeclarationKey) :
    (table.publish key node).nodes.get? other =
      if key = other then node.or (table.nodes.get? other) else table.nodes.get? other := by
  unfold publish
  cases node with
  | none => simp
  | some node => simp [Assoc.get?_insert]

end ClaimTable
end Lineage
