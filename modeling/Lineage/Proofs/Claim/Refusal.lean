import Lineage.Proofs.Claim.Actions
import Mathlib.Data.List.Chain

set_option autoImplicit false

/-! # Refused claims

A claim is refused exactly if it would close a cycle, and with just that cycle: the key, the resolutions
that lead from it to the requester, and the key again (`claim_refused_iff`). This holds of every
session, reached or not: the dependencies in flight may well have cycles of their own, and each
resolution may list them in any order.

That the search for the cycle ends is a matter of counting. `searchRounds` is the search round by round.
It leaves the graph as it is and marks what it has explored, so a key can be pending many times over.
It is `ClaimTable.search`, which takes explored resolutions out of the graph, and it needs no more rounds
than `weight` allows. -/

namespace Lineage
namespace ClaimTable

variable {entries unexplored : Assoc DeclarationKey Flight}
  {start goal last next : DeclarationKey} {before : List DeclarationKey}
  {pending : List (DeclarationKey × List DeclarationKey)}

/-! ## What the search finds -/

/-- Dependencies were followed from `start` through the keys `before`, which stand in reverse, to
    `last`. -/
structure Trail (entries : Assoc DeclarationKey Flight) (start last : DeclarationKey)
    (before : List DeclarationKey) : Prop where
  steps : (last :: before).IsChain fun next holder => DependsOn entries holder next
  starts : (last :: before).getLast? = some start

theorem Trail.extend (h : Trail entries start last before) (hstep : DependsOn entries last next) :
    Trail entries start next (last :: before) where
  steps := .cons_cons hstep h.steps
  starts := by
    rw [List.getLast?_cons_cons]
    exact h.starts

/-- Pending trails stay trails, and the one that reaches the goal is the path found. -/
theorem search_trail {path : List DeclarationKey}
    (hsteps : ∀ holder next, DependsOn unexplored holder next → DependsOn entries holder next)
    (hpending : ∀ trail ∈ pending, Trail entries start trail.1 trail.2)
    (h : search goal unexplored pending = some path) :
    path.IsChain (DependsOn entries) ∧ path.head? = some start ∧ path.getLast? = some goal := by
  fun_induction search goal unexplored pending with
  | case1 => simp at h
  | case2 unexplored before pending =>
    have htrail := hpending _ List.mem_cons_self
    rw [Option.some.injEq] at h
    subst h
    refine ⟨List.isChain_reverse.mpr htrail.steps, ?_, ?_⟩
    · rw [List.head?_reverse]
      exact htrail.starts
    · simp
  | case3 unexplored last before pending hne hnone ih =>
    exact ih hsteps (fun trail htrail => hpending trail (List.mem_cons_of_mem _ htrail)) h
  | case4 unexplored last before pending hne flight hflight _ ih =>
    have htrail := hpending _ List.mem_cons_self
    refine ih ?_ ?_ h
    · intro holder next hstep
      exact hsteps holder next (dependsOn_erase_iff.mp hstep).2
    · intro trail hmem
      rcases List.mem_append.mp hmem with hnew | hold
      · obtain ⟨next, hnext, rfl⟩ := List.mem_map.mp hnew
        exact htrail.extend (hsteps last next ⟨flight, hflight, hnext⟩)
      · exact hpending trail (List.mem_cons_of_mem _ hold)

/-- A dependency path follows dependencies from one key to the other. -/
theorem dependencyPath?_trail {ν : Type} {table : ClaimTable ν} {path : List DeclarationKey}
    (h : table.dependencyPath? start goal = some path) :
    path.IsChain (DependsOn table.inFlight) ∧ path.head? = some start ∧
      path.getLast? = some goal := by
  refine search_trail (fun _ _ hstep => hstep) ?_ h
  intro trail htrail
  rw [List.mem_singleton] at htrail
  subst htrail
  exact ⟨.singleton start, rfl⟩

/-! ## How long it searches -/

/-- The search for a path to `goal`, round by round. A round takes one pending path: it has reached the
    goal, or it ends with a key that is not in flight or is marked, or the key is marked and the path
    goes on with each of its dependencies. `none` if the search is not over after some rounds. -/
def searchRounds (goal : DeclarationKey) (entries : Assoc DeclarationKey Flight) :
    (rounds : Nat) → (marked : List DeclarationKey) →
      (pending : List (DeclarationKey × List DeclarationKey)) → Option (Option (List DeclarationKey))
  | 0, _, _ => none
  | _ + 1, _, [] => some none
  | rounds + 1, marked, (last, before) :: pending =>
    if last = goal then
      some (some (last :: before).reverse)
    else
      match entries.get? last with
      | none => searchRounds goal entries rounds marked pending
      | some flight =>
        if last ∈ marked then
          searchRounds goal entries rounds marked pending
        else
          searchRounds goal entries rounds (last :: marked)
            (flight.dependsOn.map (fun next => (next, last :: before)) ++ pending)

/-- What is marked, and no more, is taken out of the graph. -/
def LeftBy (entries : Assoc DeclarationKey Flight) (marked : List DeclarationKey)
    (unexplored : Assoc DeclarationKey Flight) : Prop :=
  ∀ key, unexplored.get? key = if key ∈ marked then none else entries.get? key

theorem LeftBy.mark {marked : List DeclarationKey} (h : LeftBy entries marked unexplored)
    (last : DeclarationKey) : LeftBy entries (last :: marked) (unexplored.erase last) := by
  intro key
  rw [Assoc.get?_erase, h key]
  by_cases hlast : last = key
  · simp [hlast]
  · simp [hlast, Ne.symm hlast]

/-- A path that ends with a key to which nothing is known is given up. -/
theorem search_of_get?_eq_none (hne : last ≠ goal) (hnone : unexplored.get? last = none) :
    search goal unexplored ((last, before) :: pending) = search goal unexplored pending := by
  rw [search, if_neg hne]
  split
  · rfl
  · next flight hflight => simp [hnone] at hflight

/-- With a round for each unit of weight that is left and for each pending path, and one to see that
    nothing is pending, the search is over. -/
theorem searchRounds_eq {rounds : Nat} {marked : List DeclarationKey}
    (hleft : LeftBy entries marked unexplored) (hrounds : weight unexplored + pending.length < rounds) :
    searchRounds goal entries rounds marked pending = some (search goal unexplored pending) := by
  induction rounds generalizing marked unexplored pending with
  | zero => omega
  | succ rounds ih =>
    match pending with
    | [] => simp [searchRounds, search]
    | (last, before) :: pending =>
      rw [List.length_cons] at hrounds
      by_cases hgoal : last = goal
      · rw [searchRounds, search, if_pos hgoal, if_pos hgoal]
      · have hlast := hleft last
        rw [searchRounds, if_neg hgoal]
        cases hunexplored : unexplored.get? last with
        | none =>
          -- the key is not in flight, or it is marked
          rw [search_of_get?_eq_none hgoal hunexplored, ← ih hleft (by omega)]
          split
          · rfl
          · next flight hflight =>
            rw [hunexplored, hflight] at hlast
            rw [if_pos (by simpa using hlast)]
        | some flight =>
          rw [hunexplored] at hlast
          obtain ⟨hmarked, hflight⟩ : last ∉ marked ∧ entries.get? last = some flight := by
            split at hlast
            · simp at hlast
            · exact ⟨‹_›, hlast.symm⟩
          have hweight := weight_erase_of_get? hunexplored
          rw [search_of_get? hgoal hunexplored, hflight]
          dsimp only
          rw [if_neg hmarked]
          refine ih (hleft.mark last) ?_
          rw [List.length_append, List.length_map]
          omega

theorem searchRounds_dependencyPath? {ν : Type} (table : ClaimTable ν) {rounds : Nat}
    (hrounds : weight table.inFlight + 1 < rounds) :
    searchRounds goal table.inFlight rounds [] [(start, [])] =
      some (table.dependencyPath? start goal) :=
  searchRounds_eq (by simp [LeftBy]) (by simpa using hrounds)

/-! ## Claims -/

theorem claim_none {ν : Type} (table : ClaimTable ν) (key : DeclarationKey) :
    ∃ answer after, table.claim key none = .ok (answer, after) := by
  unfold claim
  split
  · exact ⟨_, _, rfl⟩
  · exact ⟨_, _, rfl⟩

/-- A refused claim is one of an unresolved key from which a path leads to the requester. -/
theorem claim_eq_error_iff {ν : Type} (table : ClaimTable ν) (key requester : DeclarationKey)
    (cycle : List DeclarationKey) :
    table.claim key (some requester) = .error cycle ↔
      table.nodes.get? key = none ∧
        ∃ path, table.dependencyPath? key requester = some path ∧ cycle = path ++ [key] := by
  unfold claim
  cases hnode : table.nodes.get? key with
  | some node => simp
  | none =>
    cases hpath : table.dependencyPath? key requester with
    | none => simp [hpath]
    | some path => simp [hpath, eq_comm]

theorem exists_dependencyPath?_iff {ν : Type} (table : ClaimTable ν) (start goal : DeclarationKey) :
    (∃ path, table.dependencyPath? start goal = some path) ↔ Reaches table.inFlight start goal := by
  rw [← Option.ne_none_iff_exists', Ne, dependencyPath?_eq_none_iff, not_not]

end ClaimTable

namespace ClaimSession

open ClaimTable

variable {ν : Type}

/-- A session refuses what its table refuses. -/
theorem claim_eq_error_iff (session : ClaimSession ν) (key : DeclarationKey)
    (requester : Option DeclarationKey) (error : ResolveError) :
    session.claim key requester = .error error ↔
      ∃ cycle, session.table.claim key requester = .error cycle ∧ error = .cyclic cycle := by
  unfold claim
  rcases session.table.claim key requester with cycle | ⟨answer, after⟩
  · simp [eq_comm]
  · cases answer <;> simp

/-- **Refused claims.** A claim without a requester is never refused. A claim on behalf of `requester` is
    refused exactly if the key is not resolved and is the requester's own, or leads to it along the
    dependencies in flight. A refusal changes nothing, and its cycle goes from the key along dependencies
    to the requester and from there back to the key. The search that decides this is over after as many
    rounds as there are resolutions and dependencies in flight, and two more. -/
theorem claim_refused_iff (session : ClaimSession ν) (key : DeclarationKey) :
    (∃ granted after, session.claim key none = .ok (granted, after)) ∧
      ∀ requester,
        ((∃ error, session.claim key (some requester) = .error error) ↔
          session.table.nodes.get? key = none ∧
            Reaches session.table.inFlight key requester) ∧
        (∀ error, session.claim key (some requester) = .error error →
          session.act (.claim key (some requester)) = session ∧
            ∃ path, error = .cyclic (path ++ [key]) ∧ path.head? = some key ∧
              path.getLast? = some requester ∧
              path.IsChain (DependsOn session.table.inFlight)) ∧
        ∀ rounds, weight session.table.inFlight + 1 < rounds →
          searchRounds requester session.table.inFlight rounds [] [(key, [])] =
            some (session.table.dependencyPath? key requester) := by
  constructor
  · obtain ⟨answer, after, hclaim⟩ := session.table.claim_none key
    rcases hsession : session.claim key none with error | ⟨granted, after'⟩
    · obtain ⟨cycle, hcycle, -⟩ := (session.claim_eq_error_iff key none error).mp hsession
      simp [hclaim] at hcycle
    · exact ⟨granted, after', rfl⟩
  · intro requester
    refine ⟨?_, ?_, ?_⟩
    · simp only [claim_eq_error_iff, ClaimTable.claim_eq_error_iff, ← exists_dependencyPath?_iff]
      constructor
      · rintro ⟨error, cycle, ⟨hnone, path, hpath, -⟩, -⟩
        exact ⟨hnone, path, hpath⟩
      · rintro ⟨hnone, path, hpath⟩
        exact ⟨_, _, ⟨hnone, path, hpath, rfl⟩, rfl⟩
    · intro error herror
      refine ⟨by rw [act, herror], ?_⟩
      obtain ⟨cycle, hcycle, rfl⟩ := (session.claim_eq_error_iff key _ error).mp herror
      obtain ⟨-, path, hpath, rfl⟩ := (session.table.claim_eq_error_iff key _ cycle).mp hcycle
      obtain ⟨hsteps, hstart, hgoal⟩ := dependencyPath?_trail hpath
      exact ⟨path, rfl, hstart, hgoal, hsteps⟩
    · intro rounds hrounds
      exact session.table.searchRounds_dependencyPath? hrounds

/-- A class by its name. -/
def sampleNamed (name : String) : DeclarationKey :=
  ⟨name, .classType, "sample", ⟨⟨0, 0⟩, ⟨0, 0⟩⟩⟩

/-- Two resolutions that depend on each other, as no run of a session leaves them, and one of them on a
    third. -/
def sampleTangle : ClaimSession Nat where
  table := {
    nodes := []
    inFlight := [(sampleNamed "A", ⟨0, [sampleNamed "B"]⟩),
      (sampleNamed "B", ⟨1, [sampleNamed "A", sampleNamed "C"]⟩), (sampleNamed "C", ⟨2, []⟩)]
    nextTicket := 3 }
  guards := []
  waits := []
  results := []

theorem claim_sampleTangle_refused :
    ∃ path, sampleTangle.claim (sampleNamed "A") (some (sampleNamed "C")) =
        .error (.cyclic (path ++ [sampleNamed "A"])) ∧
      path.head? = some (sampleNamed "A") ∧ path.getLast? = some (sampleNamed "C") ∧
      path.IsChain (DependsOn sampleTangle.table.inFlight) ∧
      sampleTangle.act (.claim (sampleNamed "A") (some (sampleNamed "C"))) = sampleTangle := by
  obtain ⟨hiff, herror, -⟩ := (claim_refused_iff sampleTangle (sampleNamed "A")).2 (sampleNamed "C")
  have hfirst : DependsOn sampleTangle.table.inFlight (sampleNamed "A") (sampleNamed "B") :=
    ⟨⟨0, [sampleNamed "B"]⟩, rfl, by simp⟩
  have hsecond : DependsOn sampleTangle.table.inFlight (sampleNamed "B") (sampleNamed "C") :=
    ⟨⟨1, [sampleNamed "A", sampleNamed "C"]⟩, rfl, by simp⟩
  obtain ⟨error, hrefused⟩ := hiff.mpr ⟨rfl, .tail (.single hfirst) hsecond⟩
  obtain ⟨hunchanged, path, rfl, hstart, hend, hsteps⟩ := herror error hrefused
  exact ⟨path, hrefused, hstart, hend, hsteps, hunchanged⟩

end ClaimSession
end Lineage
