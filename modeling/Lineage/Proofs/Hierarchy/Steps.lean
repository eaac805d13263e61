import Lineage.Hierarchy.Builder
import Lineage.Proofs.Execution

set_option autoImplicit false

/-! # The steps of a build

What each part of a resolution does to the state of the builder, as one equation per part. Lookups
touch neither claims nor nodes; a claim, a publication and a new node are the only other changes. The
proofs about whole resolutions use these equations and never open the builder's definitions. -/

namespace Lineage

variable {σ α : Type}

/-! ## Primitive steps -/

namespace Lookup

theorem exec_call (service : ServiceCall σ α) (s : LookupState σ) :
    exec (call service) s =
      ((exec service s.world).1, { s with world := (exec service s.world).2 }) := rfl

theorem exec_declarationAt (services : Services σ) (location : Location) (s : LookupState σ) :
    exec (declarationAt services location) s =
      match s.memo.get? location with
      | some found => (.ok found, s)
      | none =>
        match exec (services.findDeclaration location.uri location.range) s.world with
        | (.error failure, world) => (.error failure, { s with world := world })
        | (.ok found, world) => (.ok found, ⟨world, s.memo.insert location found⟩) := by
  unfold declarationAt
  simp only [exec_bind, exec_get]
  cases s.memo.get? location with
  | some found => rfl
  | none =>
    simp only [exec_bind, exec_call]
    rcases exec (services.findDeclaration location.uri location.range) s.world with
      ⟨failure | found, world⟩
    · rfl
    · rfl

theorem exec_definitionsAt (services : Services σ) (uri : String) (position : Position)
    (s : LookupState σ) :
    exec (definitionsAt services uri position) s =
      match exec (services.resolveDefinitions uri position) s.world with
      | (.error failure, world) => (.error failure, { s with world := world })
      | (.ok locations, world) =>
        match exec (locations.mapM (declarationAt services)) { s with world := world } with
        | (.error failure, s') => (.error failure, s')
        | (.ok found, s') =>
          (.ok ((found.filterMap id).filter fun declaration => declaration.kind.isType), s') := by
  unfold definitionsAt
  simp only [exec_bind, exec_call]
  rcases exec (services.resolveDefinitions uri position) s.world with ⟨failure | locations, world⟩
  · rfl
  · dsimp only
    rcases exec (locations.mapM (declarationAt services)) { s with world := world } with
      ⟨failure | found, s'⟩
    · rfl
    · rfl

end Lookup

namespace Build

theorem exec_lookup (action : Lookup σ α) (s : BuildState σ) :
    exec (lookup action) s =
      ((exec action s.lookups).1.mapError fun failure => .failed (.service failure),
        { s with lookups := (exec action s.lookups).2 }) := rfl

theorem exec_claim (key : DeclarationKey) (requester : Option DeclarationKey) (s : BuildState σ) :
    exec (claim key requester) s =
      match s.claims.claim key requester with
      | .error cycle => (.error (.failed (.cyclic cycle)), s)
      | .ok (answer, claims) => (.ok answer, { s with claims := claims }) := rfl

/-- A message leaves the state alone. -/
theorem exec_trace (tracing : Tracing) (message : Message) (key : DeclarationKey)
    (s : BuildState σ) :
    exec (trace tracing message key) s =
      (if tracing.Overflows message key then .error .overflow else .ok (), s) := by
  unfold trace
  split <;> rfl

/-- A claim with tracing is a claim, and then a message unless the key is the claimant's. -/
theorem exec_claimTraced (tracing : Tracing) (key : DeclarationKey)
    (requester : Option DeclarationKey) (s : BuildState σ) :
    exec (claimTraced tracing key requester) s =
      match s.claims.claim key requester with
      | .error cycle => (.error (.failed (.cyclic cycle)), s)
      | .ok (answer, claims) =>
        (match answer with
          | .ready _ => if tracing.Overflows .cacheHit key then .error .overflow else .ok answer
          | .wait _ => if tracing.Overflows .waiting key then .error .overflow else .ok answer
          | .owner => .ok answer,
          { s with claims := claims }) := by
  rw [claimTraced, exec_bind, exec_claim]
  rcases s.claims.claim key requester with cycle | ⟨answer, claims⟩
  · rfl
  · cases answer with
    | ready node =>
      dsimp only
      rw [exec_bind, exec_trace]
      by_cases h : tracing.Overflows .cacheHit key
      · rw [if_pos h, if_pos h]
      · rw [if_neg h, if_neg h]
        rfl
    | wait ticket =>
      dsimp only
      rw [exec_bind, exec_trace]
      by_cases h : tracing.Overflows .waiting key
      · rw [if_pos h, if_pos h]
      · rw [if_neg h, if_neg h]
        rfl
    | owner => rfl

theorem claimTraced_lookups (tracing : Tracing) (key : DeclarationKey)
    (requester : Option DeclarationKey) (s : BuildState σ) :
    (exec (claimTraced tracing key requester) s).2.lookups = s.lookups := by
  rw [exec_claimTraced]
  rcases s.claims.claim key requester with cycle | ⟨answer, claims⟩ <;> rfl

/-- Without tracing no message halts a claim. -/
theorem exec_claimTraced_off (key : DeclarationKey) (requester : Option DeclarationKey)
    (s : BuildState σ) : exec (claimTraced .off key requester) s = exec (claim key requester) s := by
  rw [exec_claimTraced, exec_claim]
  rcases s.claims.claim key requester with cycle | ⟨answer, claims⟩
  · rfl
  · cases answer <;> rfl

theorem exec_outcome (action : Build σ α) (s : BuildState σ) :
    exec (outcome action) s = (.ok (exec action s).1, (exec action s).2) := rfl

/-! ## References -/

/-- Looks up the targets of all references at some positions. -/
def lookupTargets (services : Services σ) (uri : String) (positions : List Position) :
    Build σ (List (List Declaration)) :=
  positions.mapM fun position => lookup (Lookup.definitionsAt services uri position)

/-- Lookups leave claims and nodes alone. -/
theorem lookupTargets_claims (services : Services σ) (uri : String) (positions : List Position)
    (s : BuildState σ) : (exec (lookupTargets services uri positions) s).2.claims = s.claims :=
  exec_mapM_invariant (I := fun s' : BuildState σ => s'.claims = s.claims)
    (fun position s' hs' => by rw [exec_lookup]; exact hs') positions rfl

/-- The only way a lookup halts is a failure of the services. -/
theorem lookupTargets_error {services : Services σ} {uri : String} {positions : List Position}
    {s : BuildState σ} {halt : Halt}
    (h : (exec (lookupTargets services uri positions) s).1 = .error halt) :
    ∃ failure, halt = .failed (.service failure) := by
  obtain ⟨position, -, s', hfail⟩ := exec_mapM_error h
  simp only [exec_lookup] at hfail
  cases hfound : (exec (Lookup.definitionsAt services uri position) s'.lookups).1 with
  | error failure =>
    rw [hfound] at hfail
    cases hfail
    exact ⟨failure, rfl⟩
  | ok found =>
    rw [hfound] at hfail
    cases hfail

theorem exec_resolveReferences (services : Services σ) (resolve : Declaration → Build σ TypeNode)
    (uri : String) (positions : List Position) (s : BuildState σ) :
    exec (resolveReferences services resolve uri positions) s =
      match exec (lookupTargets services uri positions) s with
      | (.error halt, s') => (.error halt, s')
      | (.ok targets, s') => exec (targets.flatten.mapM resolve) s' := by
  rw [resolveReferences, exec_bind, ← lookupTargets]
  rcases exec (lookupTargets services uri positions) s with ⟨_ | _, _⟩ <;> rfl

/-! ## Nodes -/

theorem exec_buildNode (services : Services σ) (resolve : Declaration → Build σ TypeNode)
    (declaration : Declaration) (kind : TypeKind) (s : BuildState σ) :
    exec (buildNode services resolve declaration kind) s =
      match declaration.references? kind with
      | none => (.error .overflow, s)
      | some references =>
        match exec (resolveReferences services resolve declaration.uri references.superClasses) s with
        | (.error halt, s') => (.error halt, s')
        | (.ok superClasses, s') =>
          match exec (resolveReferences services resolve declaration.uri
              references.superInterfaces) s' with
          | (.error halt, s'') => (.error halt, s'')
          | (.ok superInterfaces, s'') =>
            (.ok ⟨s''.built, declaration, superClasses, superInterfaces⟩,
              { s'' with built := s''.built + 1 }) := by
  rw [buildNode]
  cases declaration.references? kind with
  | none => rfl
  | some references =>
    dsimp only
    rw [exec_bind]
    rcases exec (resolveReferences services resolve declaration.uri references.superClasses) s with
      ⟨_ | superClasses, s'⟩
    · rfl
    · dsimp only
      rw [exec_bind]
      rcases exec (resolveReferences services resolve declaration.uri references.superInterfaces) s'
        with ⟨_ | superInterfaces, s''⟩ <;> rfl

/-- The state after a key was given back. -/
def published (key : DeclarationKey) (node : Option TypeNode) (s : BuildState σ) : BuildState σ :=
  { s with claims := s.claims.publish key node }

theorem exec_resolveFromTraced_succ (tracing : Tracing) (services : Services σ) (depth : Nat)
    (requester : Option DeclarationKey) (declaration : Declaration) (s : BuildState σ) :
    exec (resolveFromTraced tracing services (depth + 1) requester declaration) s =
      match declaration.typeKind with
      | .error error => (.error (.failed error), s)
      | .ok kind =>
        match exec (claimTraced tracing declaration.key requester) s with
        | (.error halt, s') => (.error halt, s')
        | (.ok (.ready node), s') => (.ok node, s')
        | (.ok (.wait _), s') => (.error (.blocked declaration.key), s')
        | (.ok .owner, s') =>
          let (result, s'') := exec (buildNode services
            (resolveFromTraced tracing services depth (some declaration.key)) declaration kind) s'
          (result, published declaration.key result.toOption s'') := by
  rw [resolveFromTraced]
  cases declaration.typeKind with
  | error error => rfl
  | ok kind =>
    dsimp only
    rw [exec_bind]
    rcases exec (claimTraced tracing declaration.key requester) s with ⟨halt | answer, s'⟩
    · rfl
    · cases answer with
      | ready node => rfl
      | wait ticket => rfl
      | owner =>
        dsimp only
        rw [exec_bind, exec_outcome]
        rcases exec (buildNode services (resolveFromTraced tracing services depth
          (some declaration.key)) declaration kind) s' with ⟨halt | node, s''⟩ <;> rfl

theorem exec_resolveFrom_zero (services : Services σ) (requester : Option DeclarationKey)
    (declaration : Declaration) (s : BuildState σ) :
    exec (resolveFrom services 0 requester declaration) s = (.error .exhausted, s) := rfl

theorem exec_resolveFrom_succ (services : Services σ) (depth : Nat)
    (requester : Option DeclarationKey) (declaration : Declaration) (s : BuildState σ) :
    exec (resolveFrom services (depth + 1) requester declaration) s =
      match declaration.typeKind with
      | .error error => (.error (.failed error), s)
      | .ok kind =>
        match s.claims.claim declaration.key requester with
        | .error cycle => (.error (.failed (.cyclic cycle)), s)
        | .ok (.ready node, claims) => (.ok node, { s with claims := claims })
        | .ok (.wait _, claims) => (.error (.blocked declaration.key), { s with claims := claims })
        | .ok (.owner, claims) =>
          let (result, s') := exec (buildNode services
            (resolveFrom services depth (some declaration.key)) declaration kind)
              { s with claims := claims }
          (result, published declaration.key result.toOption s') := by
  show exec (resolveFromTraced .off services (depth + 1) requester declaration) s = _
  rw [exec_resolveFromTraced_succ, exec_claimTraced_off, exec_claim]
  cases declaration.typeKind with
  | error error => rfl
  | ok kind =>
    rcases s.claims.claim declaration.key requester with cycle | ⟨answer, claims⟩
    · rfl
    · cases answer <;> rfl

/-! ## What all steps keep -/

section Invariants

variable {services : Services σ} {I : BuildState σ → Prop} {resolve : Declaration → Build σ TypeNode}

/-- What lookups and the resolution of each target keep, the resolution of references keeps. -/
theorem resolveReferences_invariant
    (hlookup : ∀ uri positions s, I s → I (exec (lookupTargets services uri positions) s).2)
    (hresolve : ∀ target s, I s → I (exec (resolve target) s).2)
    (uri : String) (positions : List Position) {s : BuildState σ} (hs : I s) :
    I (exec (resolveReferences services resolve uri positions) s).2 := by
  have hlooked := hlookup uri positions s hs
  rw [exec_resolveReferences]
  rcases hout : exec (lookupTargets services uri positions) s with ⟨halt | targets, s'⟩ <;>
    rw [hout] at hlooked
  · exact hlooked
  · exact exec_mapM_invariant hresolve targets.flatten hlooked

theorem buildNode_invariant
    (hlookup : ∀ uri positions s, I s → I (exec (lookupTargets services uri positions) s).2)
    (hresolve : ∀ target s, I s → I (exec (resolve target) s).2)
    (hbuilt : ∀ s, I s → I { s with built := s.built + 1 })
    (declaration : Declaration) (kind : TypeKind) {s : BuildState σ} (hs : I s) :
    I (exec (buildNode services resolve declaration kind) s).2 := by
  rw [exec_buildNode]
  cases declaration.references? kind with
  | none => exact hs
  | some references =>
    have hclasses := resolveReferences_invariant hlookup hresolve declaration.uri
      references.superClasses hs
    dsimp only
    rcases hout : exec (resolveReferences services resolve declaration.uri
      references.superClasses) s with ⟨halt | superClasses, s'⟩ <;> rw [hout] at hclasses
    · exact hclasses
    · have hinterfaces := resolveReferences_invariant hlookup hresolve declaration.uri
        references.superInterfaces hclasses
      dsimp only
      rcases hout' : exec (resolveReferences services resolve declaration.uri
        references.superInterfaces) s' with ⟨halt | superInterfaces, s''⟩ <;>
        rw [hout'] at hinterfaces
      · exact hinterfaces
      · exact hbuilt s'' hinterfaces

end Invariants

/-! ## What all lookups keep -/

section Keeping

variable {services : Services σ} {I : LookupState σ → Prop}

/-- Definition lookups are all that a resolution does to the state of the lookups. -/
theorem lookupTargets_keeps
    (hlookup : ∀ uri position lookups, I lookups →
      I (exec (Lookup.definitionsAt services uri position) lookups).2)
    (uri : String) (positions : List Position) (s : BuildState σ) (hs : I s.lookups) :
    I (exec (lookupTargets services uri positions) s).2.lookups := by
  refine exec_mapM_invariant (I := fun s' : BuildState σ => I s'.lookups) ?_ positions hs
  intro position s' hs'
  rw [exec_lookup]
  exact hlookup uri position s'.lookups hs'

theorem resolveReferences_keeps
    (hlookup : ∀ uri position lookups, I lookups →
      I (exec (Lookup.definitionsAt services uri position) lookups).2)
    {resolve : Declaration → Build σ TypeNode}
    (hresolve : ∀ target s, I s.lookups → I (exec (resolve target) s).2.lookups)
    (uri : String) (positions : List Position) {s : BuildState σ} (hs : I s.lookups) :
    I (exec (resolveReferences services resolve uri positions) s).2.lookups :=
  resolveReferences_invariant (I := fun s' : BuildState σ => I s'.lookups)
    (lookupTargets_keeps hlookup) hresolve uri positions hs

/-- What every definition lookup keeps, a resolution keeps, however it ends. -/
theorem resolveFromTraced_keeps
    (hlookup : ∀ uri position lookups, I lookups →
      I (exec (Lookup.definitionsAt services uri position) lookups).2)
    (tracing : Tracing) (depth : Nat) (requester : Option DeclarationKey)
    (declaration : Declaration) {s : BuildState σ} (hs : I s.lookups) :
    I (exec (resolveFromTraced tracing services depth requester declaration) s).2.lookups := by
  induction depth generalizing requester declaration s with
  | zero => exact hs
  | succ depth ih =>
    rw [exec_resolveFromTraced_succ]
    cases declaration.typeKind with
    | error error => exact hs
    | ok kind =>
      dsimp only
      have hclaimed : I (exec (claimTraced tracing declaration.key requester) s).2.lookups := by
        rw [claimTraced_lookups]
        exact hs
      rcases hclaim : exec (claimTraced tracing declaration.key requester) s with
        ⟨halt | answer, s'⟩ <;> rw [hclaim] at hclaimed
      · exact hclaimed
      · cases answer with
        | ready node => exact hclaimed
        | wait ticket => exact hclaimed
        | owner =>
          exact buildNode_invariant (I := fun s' : BuildState σ => I s'.lookups)
            (lookupTargets_keeps hlookup) (fun target s' hs' => ih (some declaration.key) target hs')
            (fun _ hs' => hs') declaration kind hclaimed

theorem resolveFrom_keeps
    (hlookup : ∀ uri position lookups, I lookups →
      I (exec (Lookup.definitionsAt services uri position) lookups).2)
    (depth : Nat) (requester : Option DeclarationKey) (declaration : Declaration)
    {s : BuildState σ} (hs : I s.lookups) :
    I (exec (resolveFrom services depth requester declaration) s).2.lookups :=
  resolveFromTraced_keeps hlookup .off depth requester declaration hs

end Keeping

end Build
end Lineage
