import Lineage.Claim.Table

set_option autoImplicit false

/-! # Sessions with a claim table

A session hands out guards and waits. A guard stands for the ownership of a key: completing it
publishes a result, dropping it publishes that the resolution was abandoned, and either uses it up. A
wait is settled when the resolution it waits on publishes, and sees the resolution as abandoned if the
table was cleared meanwhile. Guards publish by key, to whatever resolution of their key is in flight
by then. -/

namespace Lineage

/-- A wait for the result of a resolution in flight. -/
structure Wait where
  key : DeclarationKey
  ticket : Nat

/-- A claim table with the guards and waits handed out so far; used ones are `none`. -/
structure ClaimSession (ν : Type) where
  table : ClaimTable ν
  guards : List (Option DeclarationKey)
  waits : List (Option Wait)
  /-- The results published so far, by ticket. -/
  results : Assoc Nat (Except ResolveError ν)

namespace ClaimSession

variable {ν : Type}

/-- An empty table and nothing handed out. -/
def empty : ClaimSession ν := ⟨.empty, [], [], []⟩

/-- The outcome of a claim in a session. -/
inductive Granted (ν : Type) where
  | ready (node : ν)
  /-- The number of a new wait. -/
  | wait (slot : Nat)
  /-- The number of a new guard. -/
  | owner (slot : Nat)

/-- Claims a key; a claim that closes a cycle fails and changes nothing. -/
def claim (session : ClaimSession ν) (key : DeclarationKey) (requester : Option DeclarationKey) :
    Except ResolveError (Granted ν × ClaimSession ν) :=
  match session.table.claim key requester with
  | .error cycle => .error (.cyclic cycle)
  | .ok (.ready node, table) => .ok (.ready node, { session with table := table })
  | .ok (.wait ticket, table) =>
    .ok (.wait session.waits.length,
      { session with table := table, waits := session.waits ++ [some ⟨key, ticket⟩] })
  | .ok (.owner, table) =>
    .ok (.owner session.guards.length,
      { session with table := table, guards := session.guards ++ [some key] })

/-- Publishes a result for a key and settles the waits on its resolution in flight, if any. -/
def publish (session : ClaimSession ν) (key : DeclarationKey) (result : Except ResolveError ν) :
    ClaimSession ν :=
  { session with
    table := session.table.publish key result.toOption
    results :=
      match session.table.inFlight.get? key with
      | some flight => session.results.insert flight.ticket result
      | none => session.results }

/-- The key of a guard that is not used up. -/
def guard? (session : ClaimSession ν) (slot : Nat) : Option DeclarationKey :=
  (session.guards[slot]?).join

/-- Completes a guard with a result; `none` if there is no such guard. -/
def complete? (session : ClaimSession ν) (slot : Nat) (result : Except ResolveError ν) :
    Option (ClaimSession ν) :=
  (session.guard? slot).map fun key =>
    { session.publish key result with guards := session.guards.set slot none }

/-- Drops a guard, so that its resolution is abandoned; `none` if there is no such guard. -/
def drop? (session : ClaimSession ν) (slot : Nat) : Option (ClaimSession ν) :=
  (session.guard? slot).bind fun key =>
    session.complete? slot (.error (.abandoned key.name))

/-- What a wait can see now; `none` while its resolution is in flight. -/
def settled? (session : ClaimSession ν) (wait : Wait) : Option (Except ResolveError ν) :=
  match session.results.get? wait.ticket with
  | some result => some result
  | none =>
    if session.table.inFlight.any fun entry => entry.2.ticket == wait.ticket then
      none
    else
      some (.error (.abandoned wait.key.name))

/-- Looks at a wait once: still pending, or settled and thereby used up. `none` if there is no such
    wait. -/
def poll? (session : ClaimSession ν) (slot : Nat) :
    Option (Option (Except ResolveError ν) × ClaimSession ν) :=
  ((session.waits[slot]?).join).map fun wait =>
    match session.settled? wait with
    | none => (none, session)
    | some result => (some result, { session with waits := session.waits.set slot none })

/-- Keeps a node under a key. -/
def put (session : ClaimSession ν) (key : DeclarationKey) (node : ν) : ClaimSession ν :=
  { session with table := session.table.put key node }

/-- Forgets all nodes and all resolutions in flight; waits on them see them as abandoned. -/
def clear (session : ClaimSession ν) : ClaimSession ν :=
  { session with table := session.table.clear }

end ClaimSession
end Lineage
