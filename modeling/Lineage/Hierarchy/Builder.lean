import Lineage.Claim.Table
import Lineage.Clause
import Lineage.Hierarchy.Node
import Lineage.Lookup

set_option autoImplicit false

/-! # Building type hierarchies

Resolving a declaration gives its node, with all supertypes resolved in turn. A declaration is
claimed before it is built, so that within a pass each is built once and shared, and following the
supertypes back to a declaration under construction is refused as a cycle.

It is assumed here that no step has to wait: the services answer at once, and a look into the memo of
lookups never makes the scheduler put a resolution aside. Then resolution is sequential: the references
to super classes are looked up, then their targets are resolved, then the same happens for super
interfaces; the first failure ends it. Whatever way a build ends, its claim is given back, and only a
node that was built completely is kept.

Tracing may be on. A message that shows the key of a declaration is put into words by the program itself,
and a line or column that cannot be counted from one halts it there, as an overflow elsewhere does.

Nesting is bounded: the keys under construction are pairwise distinct, so with services that know
`n` keys no more than `n + 2` calls ever nest. `resolveWithin` takes the bound, `resolve` computes
it. -/

namespace Lineage

/-! ## References of a declaration -/

/-- The positions at which a declaration refers to supertypes. -/
structure References where
  superClasses : List Position
  superInterfaces : List Position
deriving DecidableEq

/-- The references that a declaration of a kind makes: a class extends at most one class and
    implements interfaces, an interface extends interfaces. `none` if a position leaves the 32-bit
    range. -/
def Declaration.references? (declaration : Declaration) (kind : TypeKind) : Option References := do
  let text := declaration.text.toList
  let clauses := SupertypeClauses.scan text
  let map := LineMap.ofText text
  let positions (offsets : List Nat) : Option (List Position) :=
    offsets.mapM (SupertypeClauses.positionOf map declaration.range.start)
  match kind with
  | .classType =>
    return ⟨← positions clauses.extended.toList, ← positions clauses.implementedNames⟩
  | .interfaceType =>
    return ⟨[], ← positions clauses.extendedNames⟩

/-! ## The builder -/

/-- Why a resolution ended without a node. -/
inductive Halt where
  /-- It failed. -/
  | failed (error : ResolveError)
  /-- A position leaves the 32-bit range: that of a reference, or one shown in a message. -/
  | overflow
  /-- It would have to wait for another resolution. -/
  | blocked (key : DeclarationKey)
  /-- It nests deeper than its bound. -/
  | exhausted
deriving DecidableEq

/-- The messages that show the key of a declaration. -/
inductive Message where
  /-- A declaration of a pass has failed and is skipped. -/
  | skipping
  /-- A claim finds its key resolved. -/
  | cacheHit
  /-- A claim finds its key in flight. -/
  | waiting
deriving DecidableEq

/-- Which of these messages are written. -/
structure Tracing where
  takes : Message → Bool

namespace Tracing

/-- Nothing is written. -/
def off : Tracing := ⟨fun _ => false⟩

/-- A message is wanted that cannot be put into words. -/
def Overflows (tracing : Tracing) (message : Message) (key : DeclarationKey) : Prop :=
  tracing.takes message = true ∧ key.describe = none

instance (tracing : Tracing) (message : Message) (key : DeclarationKey) :
    Decidable (tracing.Overflows message key) :=
  inferInstanceAs (Decidable (_ ∧ _))

end Tracing

/-- The state of a builder: lookups, claims and the number of nodes built. -/
structure BuildState (σ : Type) where
  lookups : LookupState σ
  claims : ClaimTable TypeNode
  built : Nat

/-- A build step: it may halt, and its changes to the state stay if it does. -/
abbrev Build (σ α : Type) := ExceptT Halt (StateM (BuildState σ)) α

namespace Build

variable {σ α : Type}

/-- A builder that has built nothing. -/
def start (world : σ) : BuildState σ := ⟨Lookup.start world, .empty, 0⟩

/-- Starts a new pass: nodes and lookups of the last one are forgotten. -/
def beginPass (state : BuildState σ) : BuildState σ :=
  { state with lookups := Lookup.clear state.lookups, claims := state.claims.clear }

/-- Runs a lookup; a service failure fails the resolution. -/
def lookup (action : Lookup σ α) : Build σ α :=
  fun state =>
    let (answer, lookups) := action.run.run state.lookups
    (answer.mapError fun failure => .failed (.service failure), { state with lookups := lookups })

/-- Claims a key on behalf of a requester. -/
def claim (key : DeclarationKey) (requester : Option DeclarationKey) :
    Build σ (Claim TypeNode) :=
  fun state =>
    match state.claims.claim key requester with
    | .error cycle => (.error (.failed (.cyclic cycle)), state)
    | .ok (answer, claims) => (.ok answer, { state with claims := claims })

/-- Writes a message about a key if it is wanted; only then is the key put into words. -/
def trace (tracing : Tracing) (message : Message) (key : DeclarationKey) : Build σ Unit :=
  if tracing.Overflows message key then throw .overflow else pure ()

/-- Claims a key and tells if it is resolved or in flight already. -/
def claimTraced (tracing : Tracing) (key : DeclarationKey) (requester : Option DeclarationKey) :
    Build σ (Claim TypeNode) := do
  match ← claim key requester with
  | .ready node =>
    trace tracing .cacheHit key
    return .ready node
  | .wait ticket =>
    trace tracing .waiting key
    return .wait ticket
  | .owner => return .owner

/-- Gives a claimed key back, with its node if it was built. -/
def publish (key : DeclarationKey) (node : Option TypeNode) : Build σ Unit :=
  modify fun state => { state with claims := state.claims.publish key node }

/-- The way an action ends, halted or not, as a value. -/
def outcome (action : Build σ α) : Build σ (Except Halt α) :=
  fun state =>
    let (result, state) := action.run.run state
    (.ok result, state)

/-- A new node. -/
def newNode (declaration : Declaration) (superClasses superInterfaces : List TypeNode) :
    Build σ TypeNode := do
  let id := (← get).built
  modify fun state => { state with built := state.built + 1 }
  return ⟨id, declaration, superClasses, superInterfaces⟩

/-- The nodes of all declarations referred to at some positions: all positions are looked up before
    the first target is resolved. -/
def resolveReferences (services : Services σ) (resolve : Declaration → Build σ TypeNode)
    (uri : String) (positions : List Position) : Build σ (List TypeNode) := do
  let targets ← positions.mapM fun position => lookup (Lookup.definitionsAt services uri position)
  targets.flatten.mapM resolve

/-- The node of a claimed declaration; its targets are resolved by `resolve`. -/
def buildNode (services : Services σ) (resolve : Declaration → Build σ TypeNode)
    (declaration : Declaration) (kind : TypeKind) : Build σ TypeNode := do
  match declaration.references? kind with
  | none => throw .overflow
  | some references =>
    let superClasses ←
      resolveReferences services resolve declaration.uri references.superClasses
    let superInterfaces ←
      resolveReferences services resolve declaration.uri references.superInterfaces
    newNode declaration superClasses superInterfaces

/-- Resolves a declaration on behalf of the resolution of `requester`, nesting at most `depth`
    calls. -/
def resolveFromTraced (tracing : Tracing) (services : Services σ) :
    (depth : Nat) → (requester : Option DeclarationKey) → Declaration → Build σ TypeNode
  | 0, _, _ => throw .exhausted
  | depth + 1, requester, declaration => do
    match declaration.typeKind with
    | .error error => throw (.failed error)
    | .ok kind =>
      let key := declaration.key
      match ← claimTraced tracing key requester with
      | .ready node => return node
      | .wait _ => throw (.blocked key)
      | .owner =>
        let result ← outcome
          (buildNode services (resolveFromTraced tracing services depth (some key)) declaration kind)
        publish key result.toOption
        match result with
        | .ok node => return node
        | .error halt => throw halt

/-- Resolves a declaration on behalf of the resolution of `requester` without tracing. -/
def resolveFrom (services : Services σ) (depth : Nat) (requester : Option DeclarationKey)
    (declaration : Declaration) : Build σ TypeNode :=
  resolveFromTraced .off services depth requester declaration

/-- Resolves a declaration, nesting at most `depth` calls. -/
def resolveWithinTraced (tracing : Tracing) (services : Services σ) (depth : Nat)
    (root : Declaration) : Build σ TypeNode :=
  resolveFromTraced tracing services depth none root

/-- Resolves a declaration without tracing, nesting at most `depth` calls. -/
def resolveWithin (services : Services σ) (depth : Nat) (root : Declaration) : Build σ TypeNode :=
  resolveFrom services depth none root

/-- A number of calls that is enough for the resolution of any declaration: one per key that the services
    know, one for the declaration itself, and one that is refused or finds its key resolved. -/
def depthBound (services : Services σ) : Nat :=
  services.declarationKeys.length + 2

/-- Resolves a declaration without tracing. -/
def resolve (services : Services σ) (root : Declaration) : Build σ TypeNode :=
  resolveWithin services (depthBound services) root

end Build
end Lineage
