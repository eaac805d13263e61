import Lineage.Assoc
import Lineage.Failure

set_option autoImplicit false

/-! # The claim table

The table holds the resolved node of each declaration and the resolutions in flight. The first to
claim a key owns it and does the work; who claims it meanwhile waits for the owner's result.

A claim made on behalf of a resolution `r` records that `r` depends on the claimed key. The claim is
refused if `r` can already be reached from the key along such dependencies: it would close a cycle
in which everyone waits. So the dependencies between resolutions in flight never form a cycle, and a
wait always ends. -/

namespace Lineage

/-- A resolution in flight. -/
structure Flight where
  /-- The number under which the result is awaited. -/
  ticket : Nat
  /-- The keys this resolution has claimed so far. -/
  dependsOn : List DeclarationKey

/-- Resolved nodes and resolutions in flight, by key. -/
structure ClaimTable (ν : Type) where
  nodes : Assoc DeclarationKey ν
  inFlight : Assoc DeclarationKey Flight
  nextTicket : Nat

/-- The answer to a claim. -/
inductive Claim (ν : Type) where
  /-- The key is resolved. -/
  | ready (node : ν)
  /-- Another resolution owns the key; its result comes under this ticket. -/
  | wait (ticket : Nat)
  /-- The key is the claimant's to resolve. -/
  | owner

namespace ClaimTable

variable {ν : Type}

/-- Nothing resolved, nothing in flight. -/
def empty : ClaimTable ν := ⟨[], [], 0⟩

/-! ## The search for a cycle -/

/-- How many steps a search along some resolutions takes at most. -/
def weight (entries : Assoc DeclarationKey Flight) : Nat :=
  entries.foldr (fun entry rest => 1 + entry.2.dependsOn.length + rest) 0

theorem weight_cons (entry : DeclarationKey × Flight) (rest : Assoc DeclarationKey Flight) :
    weight (entry :: rest) = 1 + entry.2.dependsOn.length + weight rest := rfl

theorem weight_erase_le (entries : Assoc DeclarationKey Flight) (key : DeclarationKey) :
    weight (entries.erase key) ≤ weight entries := by
  induction entries with
  | nil => exact Nat.le_refl _
  | cons entry rest ih =>
    by_cases h : entry.1 = key
    · rw [weight_cons, Assoc.erase, List.filter_cons_of_neg (by simp [h])]
      exact Nat.le_trans ih (Nat.le_add_left _ _)
    · rw [Assoc.erase, List.filter_cons_of_pos (by simp [h]), weight_cons, weight_cons]
      exact Nat.add_le_add_left ih _

/-- Exploring a resolution takes its own weight off. -/
theorem weight_erase_of_get? {entries : Assoc DeclarationKey Flight} {key : DeclarationKey}
    {flight : Flight} (h : entries.get? key = some flight) :
    1 + flight.dependsOn.length + weight (entries.erase key) ≤ weight entries := by
  induction entries with
  | nil => simp [Assoc.get?] at h
  | cons entry rest ih =>
    by_cases hk : entry.1 = key
    · rw [Assoc.get?, if_pos hk, Option.some.injEq] at h
      rw [weight_cons, h, Assoc.erase, List.filter_cons_of_neg (by simp [hk])]
      exact Nat.add_le_add_left (weight_erase_le rest key) _
    · rw [Assoc.get?, if_neg hk] at h
      rw [Assoc.erase, List.filter_cons_of_pos (by simp [hk]), weight_cons, weight_cons]
      have := ih h
      rw [Assoc.erase] at this
      omega

/-- A dependency path to `goal` that extends one of the `pending` paths, each given by its last key
    and the keys before it in reverse. Only `unexplored` resolutions are followed, each once. -/
def search (goal : DeclarationKey) (unexplored : Assoc DeclarationKey Flight)
    (pending : List (DeclarationKey × List DeclarationKey)) : Option (List DeclarationKey) :=
  match pending with
  | [] => none
  | (last, before) :: pending =>
    if last = goal then
      some (last :: before).reverse
    else
      match h : unexplored.get? last with
      | none => search goal unexplored pending
      | some flight =>
        have := weight_erase_of_get? h
        search goal (unexplored.erase last)
          (flight.dependsOn.map (fun next => (next, last :: before)) ++ pending)
termination_by weight unexplored + pending.length
decreasing_by
  · simp only [List.length_cons]
    omega
  · simp only [List.length_append, List.length_map, List.length_cons]
    omega

/-- A path from one key to another along the dependencies of resolutions in flight. -/
def dependencyPath? (table : ClaimTable ν) (start goal : DeclarationKey) :
    Option (List DeclarationKey) :=
  search goal table.inFlight [(start, [])]

/-! ## Operations -/

/-- Records that the resolution of `requester`, if it is in flight, depends on `key`. -/
def addDependency (table : ClaimTable ν) (requester key : DeclarationKey) : ClaimTable ν :=
  match table.inFlight.get? requester with
  | none => table
  | some flight =>
    { table with
      inFlight :=
        table.inFlight.insert requester { flight with dependsOn := flight.dependsOn.insert key } }

/-- Answers a claim of an unresolved key that closes no cycle: wait for its owner, or own it. -/
def enter (table : ClaimTable ν) (key : DeclarationKey) : Claim ν × ClaimTable ν :=
  match table.inFlight.get? key with
  | some flight => (.wait flight.ticket, table)
  | none =>
    (.owner,
      { table with
        inFlight := table.inFlight.insert key ⟨table.nextTicket, []⟩
        nextTicket := table.nextTicket + 1 })

/-- Claims a key, on behalf of the resolution of `requester` if there is one. A claim that would
    close a cycle is refused with the cycle and changes nothing. -/
def claim (table : ClaimTable ν) (key : DeclarationKey) (requester : Option DeclarationKey) :
    Except (List DeclarationKey) (Claim ν × ClaimTable ν) :=
  match table.nodes.get? key with
  | some node => .ok (.ready node, table)
  | none =>
    match requester with
    | none => .ok (table.enter key)
    | some requester =>
      match table.dependencyPath? key requester with
      | some path => .error (path ++ [key])
      | none => .ok ((table.addDependency requester key).enter key)

/-- Ends the resolution of a key and keeps its node if there is one. No other resolution depends on
    the key from then on. -/
def publish (table : ClaimTable ν) (key : DeclarationKey) (node : Option ν) : ClaimTable ν :=
  { table with
    inFlight :=
      (table.inFlight.erase key).map fun (other, flight) =>
        (other, { flight with dependsOn := flight.dependsOn.filter (· ≠ key) })
    nodes :=
      match node with
      | some node => table.nodes.insert key node
      | none => table.nodes }

/-- Keeps a node under a key, in place of an earlier one. -/
def put (table : ClaimTable ν) (key : DeclarationKey) (node : ν) : ClaimTable ν :=
  { table with nodes := table.nodes.insert key node }

/-- The node of a resolved key. -/
def get? (table : ClaimTable ν) (key : DeclarationKey) : Option ν :=
  table.nodes.get? key

/-- Whether a key is resolved. -/
def has (table : ClaimTable ν) (key : DeclarationKey) : Bool :=
  table.nodes.has key

/-- The number of resolved keys. -/
def size (table : ClaimTable ν) : Nat :=
  table.nodes.length

/-- Forgets all nodes and all resolutions in flight. -/
def clear (table : ClaimTable ν) : ClaimTable ν :=
  { table with nodes := [], inFlight := [] }

end ClaimTable
end Lineage
