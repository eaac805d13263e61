import Lineage.Hierarchy.Builder

set_option autoImplicit false

/-! # Resolution over suspending services

Language services that answer later let a resolution go on elsewhere meanwhile. Here every service
call takes a round: it is asked in one round and answered in the next. In each round all unfinished
jobs of a resolution are moved on once, in order, super classes before super interfaces and each list
from its front, as far as they get without an answer. A job sees what was done before its turn.

So references to super classes and super interfaces are looked up side by side, and a declaration
that two branches reach is built by the one and awaited by the other. Lookups of one place share a
single call; if that fails, one of those who waited for it asks again.

Which failure counts depends on how jobs are joined (`Joining`). Of the two lists of a declaration, and
of a few lookups, the first one to fail in time ends the others; supertypes are resolved in a list whose
failures count in its order. Jobs that are given up give back what they have claimed, and who waits for
it sees it as abandoned; what they have asked for is open to others again. Nodes that were built before
are kept. -/

namespace Lineage

/-! ## Jobs side by side -/

/-- Which failure of some jobs counts. -/
inductive Joining where
  /-- The first one in time. -/
  | eager
  /-- The first one in the order of the jobs, once all jobs before it are done. -/
  | ordered
deriving DecidableEq

/-- How jobs of a known number are joined. -/
def Joining.ofCount (count : Nat) : Joining :=
  if count ≤ 30 then .eager else .ordered

/-- What jobs come to together, each coming to `result?`: all their values, or the failure that
    counts. -/
def Joining.result? {α β : Type} (joining : Joining) (result? : β → Option (Except ResolveError α)) :
    List β → Option (Except ResolveError (List α))
  | [] => some (.ok [])
  | job :: rest =>
    match result? job with
    | some (.error error) => some (.error error)
    | some (.ok a) => (joining.result? result? rest).map (Except.map (a :: ·))
    | none =>
      match joining, joining.result? result? rest with
      | .eager, some (.error error) => some (.error error)
      | _, _ => none

/-! ## Jobs -/

/-- The search for the declaration at a place. -/
inductive FindJob where
  /-- Not asked, perhaps because another job has asked for the same place. -/
  | waiting (location : Location)
  /-- Asked, to be answered in the next round. -/
  | asked (location : Location)
  | done (result : Except ResolveError (Option Declaration))

/-- The lookup of what a position refers to. -/
inductive LookupJob where
  | fresh (position : Position)
  /-- Asked, to be answered in the next round. -/
  | asked (position : Position)
  | finding (finds : List FindJob)
  | failed (error : ResolveError)

mutual

/-- The resolution of a declaration. -/
inductive ResolveJob where
  | fresh (requester : Option DeclarationKey) (declaration : Declaration)
  /-- Another job builds the declaration; its failure comes under this ticket. -/
  | waiting (key : DeclarationKey) (ticket : Nat)
  | building (declaration : Declaration) (superClasses superInterfaces : ReferencesJob)
  | done (result : Except ResolveError TypeNode)

/-- The resolution of everything that some references refer to. -/
inductive ReferencesJob where
  | looking (lookups : List LookupJob)
  | resolving (targets : List ResolveJob)

end

/-- What a search has come to. -/
def FindJob.result? : FindJob → Option (Except ResolveError (Option Declaration))
  | .done result => some result
  | _ => none

/-- What a lookup has come to: the types among the declarations found. -/
def LookupJob.result? : LookupJob → Option (Except ResolveError (List Declaration))
  | .finding finds =>
    ((Joining.ofCount finds.length).result? FindJob.result? finds).map (Except.map fun found =>
      (found.filterMap id).filter fun declaration => declaration.kind.isType)
  | .failed error => some (.error error)
  | _ => none

/-- What a resolution has come to. -/
def ResolveJob.result? : ResolveJob → Option (Except ResolveError TypeNode)
  | .done result => some result
  | _ => none

/-- What references have come to: a failure, or the nodes of everything they refer to. -/
def ReferencesJob.result? : ReferencesJob → Option (Except ResolveError (List TypeNode))
  | .looking lookups =>
    match (Joining.ofCount lookups.length).result? LookupJob.result? lookups with
    | some (.error error) => some (.error error)
    | _ => none
  | .resolving targets => Joining.ordered.result? ResolveJob.result? targets

/-- Jobs for references at some positions. -/
def ReferencesJob.start (positions : List Position) : ReferencesJob :=
  .looking (positions.map .fresh)

/-! ## What jobs hold -/

/-- The places that a lookup awaits an answer for. -/
def LookupJob.awaited : LookupJob → List Location
  | .finding finds => finds.filterMap fun
    | .asked location => some location
    | _ => none
  | _ => []

mutual

/-- The keys that a resolution has claimed, those of supertypes first. -/
def ResolveJob.claimed : ResolveJob → List DeclarationKey
  | .building declaration superClasses superInterfaces =>
    superClasses.claimed ++ superInterfaces.claimed ++ [declaration.key]
  | .fresh _ _ => []
  | .waiting _ _ => []
  | .done _ => []

/-- The keys that the resolution of references has claimed. -/
def ReferencesJob.claimed : ReferencesJob → List DeclarationKey
  | .looking _ => []
  | .resolving targets => claimedByAll targets

/-- The keys that some resolutions have claimed. -/
def claimedByAll : List ResolveJob → List DeclarationKey
  | [] => []
  | job :: rest => job.claimed ++ claimedByAll rest

end

mutual

/-- The places that a resolution awaits an answer for. -/
def ResolveJob.awaited : ResolveJob → List Location
  | .building _ superClasses superInterfaces => superClasses.awaited ++ superInterfaces.awaited
  | .fresh _ _ => []
  | .waiting _ _ => []
  | .done _ => []

/-- The places that the resolution of references awaits an answer for. -/
def ReferencesJob.awaited : ReferencesJob → List Location
  | .looking lookups => lookups.flatMap LookupJob.awaited
  | .resolving targets => awaitedByAll targets

/-- The places that some resolutions await an answer for. -/
def awaitedByAll : List ResolveJob → List Location
  | [] => []
  | job :: rest => job.awaited ++ awaitedByAll rest

end

/-! ## Rounds -/

/-- The builder's state in a round, the places asked for and not answered, and the failures published so
    far. -/
structure RoundState (σ : Type) where
  build : BuildState σ
  asked : List Location
  /-- The failures of resolutions, by ticket. -/
  failures : Assoc Nat ResolveError

namespace RoundState

variable {σ : Type}

/-- Publishes the result of a claimed key. -/
def settle (state : RoundState σ) (key : DeclarationKey) (result : Except ResolveError TypeNode) :
    RoundState σ :=
  { state with
    build := { state.build with claims := state.build.claims.publish key result.toOption }
    failures :=
      match result, state.build.claims.inFlight.get? key with
      | .error error, some flight => state.failures.insert flight.ticket error
      | _, _ => state.failures }

/-- What was asked for these places is not awaited any more. -/
def forsake (state : RoundState σ) (places : List Location) : RoundState σ :=
  { state with asked := state.asked.filter fun location => location ∉ places }

/-- Gives up the resolution of references: what it has claimed is abandoned, and what it has asked for
    is not awaited any more. -/
def giveUp (state : RoundState σ) (references : ReferencesJob) : RoundState σ :=
  references.claimed.foldl (fun state key => state.settle key (.error (.abandoned key.name)))
    (state.forsake references.awaited)

end RoundState

/-- A part of a round. -/
abbrev Round (σ α : Type) := ExceptT Halt (StateM (RoundState σ)) α

namespace Round

variable {σ α β : Type}

/-- A build step within a round. -/
def lift (action : Build σ α) : Round σ α :=
  fun state =>
    let (result, build) := action.run.run state.build
    (result, { state with build := build })

/-- Tries a build step within a round; its failure is an answer. -/
def attempt (action : Build σ α) : Round σ (Except ResolveError α) := do
  match ← lift (Build.outcome action) with
  | .ok a => return .ok a
  | .error (.failed error) => return .error error
  | .error halt => throw halt

/-- Moves on jobs from the front. They are left at a failure that counts right away: one with no
    pending job before it (`settled`), and any if they are joined eagerly. -/
def moveAll (joining : Joining) (result? : β → Option (Except ResolveError α))
    (move : β → Round σ β) (settled : Bool) : List β → Round σ (List β)
  | [] => return []
  | job :: rest => do
    let job ← move job
    match result? job with
    | some (.ok _) => return job :: (← moveAll joining result? move settled rest)
    | some (.error _) =>
      if settled || joining = .eager then
        return job :: rest
      else
        return job :: (← moveAll joining result? move settled rest)
    | none => return job :: (← moveAll joining result? move false rest)

/-- Moves on the search for a declaration. -/
def find (services : Services σ) : FindJob → Round σ FindJob
  | .waiting location => do
    match (← get).build.lookups.memo.get? location with
    | some found => return .done (.ok found)
    | none =>
      if (← get).asked.contains location then
        return .waiting location
      else
        modify fun state => { state with asked := location :: state.asked }
        return .asked location
  | .asked location => do
    let found ← attempt (Build.lookup (Lookup.declarationAt services location))
    modify fun state => { state with asked := state.asked.erase location }
    return .done found
  | .done result => return .done result

/-- Moves on some searches of one lookup. If it fails, those still under way are given up. -/
def findAll (services : Services σ) (finds : List FindJob) : Round σ LookupJob := do
  let job := LookupJob.finding
    (← moveAll (.ofCount finds.length) FindJob.result? (find services) true finds)
  match job.result? with
  | some (.error error) =>
    modify fun state => state.forsake job.awaited
    return .failed error
  | _ => return job

/-- Moves on a lookup in the document `uri`. -/
def look (services : Services σ) (uri : String) : LookupJob → Round σ LookupJob
  | .fresh position => return .asked position
  | .asked position => do
    match ← attempt (Build.lookup (Lookup.call (services.resolveDefinitions uri position))) with
    | .ok locations => findAll services (locations.map .waiting)
    | .error error => return .failed error
  | .finding finds => findAll services finds
  | .failed error => return .failed error

/-- Moves on the resolutions of some targets. -/
def resolveAll (move : ResolveJob → Round σ ResolveJob) (targets : List ResolveJob) :
    Round σ ReferencesJob := do
  return .resolving (← moveAll .ordered ResolveJob.result? move true targets)

/-- Moves on references of the declaration `owner`; single resolutions are moved on by `move`. All
    positions are looked up before the first target is resolved. -/
def moveReferences (services : Services σ) (move : ResolveJob → Round σ ResolveJob)
    (owner : Declaration) : ReferencesJob → Round σ ReferencesJob
  | .looking lookups => do
    let joining := Joining.ofCount lookups.length
    let lookups ← moveAll joining LookupJob.result? (look services owner.uri) true lookups
    match joining.result? LookupJob.result? lookups with
    | some (.ok found) => resolveAll move (found.flatten.map (.fresh (some owner.key)))
    | _ => return .looking lookups
  | .resolving targets => resolveAll move targets

/-- Ends a build with a node. -/
def succeed (declaration : Declaration) (superClasses superInterfaces : List TypeNode) :
    Round σ ResolveJob := do
  let node ← lift (Build.newNode declaration superClasses superInterfaces)
  modify fun state => state.settle declaration.key (.ok node)
  return .done (.ok node)

/-- Ends a build with a failure. What is still under way for it is given up. -/
def fail (declaration : Declaration) (superClasses superInterfaces : ReferencesJob)
    (error : ResolveError) : Round σ ResolveJob := do
  modify fun state =>
    ((state.giveUp superClasses).giveUp superInterfaces).settle declaration.key (.error error)
  return .done (.error error)

/-- Moves on the build of a claimed declaration, and publishes its result when there is one. -/
def moveBuild (services : Services σ) (move : ResolveJob → Round σ ResolveJob)
    (declaration : Declaration) (superClasses superInterfaces : ReferencesJob) :
    Round σ ResolveJob := do
  let superClasses ← moveReferences services move declaration superClasses
  match superClasses.result? with
  | some (.error error) => fail declaration superClasses superInterfaces error
  | classes =>
    let superInterfaces ← moveReferences services move declaration superInterfaces
    match classes, superInterfaces.result? with
    | _, some (.error error) => fail declaration superClasses superInterfaces error
    | some (.ok classes), some (.ok interfaces) => succeed declaration classes interfaces
    | _, _ => return .building declaration superClasses superInterfaces

/-- Moves on a resolution that nests at most `depth` deep. -/
def move (services : Services σ) : (depth : Nat) → ResolveJob → Round σ ResolveJob
  | 0, _ => throw .exhausted
  | depth + 1, .fresh requester declaration => do
    match declaration.typeKind with
    | .error error => return .done (.error error)
    | .ok kind =>
      match ← attempt (Build.claim declaration.key requester) with
      | .error error => return .done (.error error)
      | .ok (.ready node) => return .done (.ok node)
      | .ok (.wait ticket) => return .waiting declaration.key ticket
      | .ok .owner =>
        match declaration.references? kind with
        | none => throw .overflow
        | some references =>
          moveBuild services (move services depth) declaration
            (.start references.superClasses) (.start references.superInterfaces)
  | _ + 1, .waiting key ticket => do
    match (← get).failures.get? ticket, (← get).build.claims.get? key with
    | some error, _ => return .done (.error error)
    | none, some node => return .done (.ok node)
    | none, none => return .waiting key ticket
  | depth + 1, .building declaration superClasses superInterfaces =>
    moveBuild services (move services depth) declaration superClasses superInterfaces
  | _ + 1, .done result => return .done result

/-- Moves a resolution on until it is done, for at most `rounds` rounds. Each begins with the places
    that jobs await. -/
def moveUntilDone (services : Services σ) (depth : Nat) :
    (rounds : Nat) → ResolveJob → Round σ (Except ResolveError TypeNode)
  | 0, _ => throw .exhausted
  | rounds + 1, job => do
    modify fun state => { state with asked := job.awaited }
    let job ← move services depth job
    match job.result? with
    | some result => return result
    | none => moveUntilDone services depth rounds job

end Round

namespace Build

variable {σ : Type}

/-- Gives back all claims that are not settled. -/
def abandon (state : BuildState σ) : BuildState σ :=
  { state with
    claims := state.claims.inFlight.keys.foldl (fun claims key => claims.publish key none)
      state.claims }

/-- Resolves a declaration over services that answer a round later, for at most `rounds` rounds. A halt
    that is no failure gives back all claims. -/
def resolveInRounds (services : Services σ) (rounds : Nat) (root : Declaration) :
    Build σ TypeNode :=
  fun state =>
    let job := ResolveJob.fresh none root
    let moved := Round.moveUntilDone services (depthBound services) rounds job
    let (result, state) := moved.run.run ⟨state, [], []⟩
    match result with
    | .ok (.ok node) => (.ok node, state.build)
    | .ok (.error error) => (.error (.failed error), state.build)
    | .error halt => (.error halt, abandon state.build)

/-- Resolves a declaration over services that answer a round later, with more rounds the more keys
    there are. -/
def resolveSuspended (services : Services σ) (root : Declaration) : Build σ TypeNode :=
  resolveInRounds services (4 * depthBound services * depthBound services) root

end Build
end Lineage
