import Lineage.Proofs.Hierarchy.Calls

set_option autoImplicit false

/-! # How deep resolutions nest

`Nests` holds of the calls that are made while a declaration is resolved, each with its level: one for
the call itself, two for the calls that it makes, and so on. `HaltCause` lists why a call ends without
a node: for a reason of its own, or as a call that it has made does. So a resolution is cut off by its
bound only if it comes to a call at a level above it (`exists_nests_of_exhausted`), and one that is not
cut off does not see its bound: with any larger one it ends the same way and in the same state
(`resolveFrom_of_le`). A bound on the levels bounds the whole recursion. Nothing is assumed of the
services here. -/

namespace Lineage
namespace Build

variable {σ α β : Type} (services : Services σ)

/-! ## Levels of calls -/

/-- While `declaration` is resolved in state `s`, nesting at most `bound` calls, a call is made at
    `level`: it is to resolve `inner` on behalf of `holder` in state `s'`. -/
inductive Nests : (bound : Nat) → (requester : Option DeclarationKey) → (declaration : Declaration) →
    (s : BuildState σ) → (level : Nat) → (holder : Option DeclarationKey) → (inner : Declaration) →
    (s' : BuildState σ) → Prop where
  | outermost {bound : Nat} {requester : Option DeclarationKey} {declaration : Declaration}
      {s : BuildState σ} : Nests bound requester declaration s 1 requester declaration s
  | inside {bound level : Nat} {requester holder : Option DeclarationKey}
      {declaration target inner : Declaration} {s s' s'' : BuildState σ} :
      ResolvesInside services bound requester declaration s target s' →
      Nests bound (some declaration.key) target s' level holder inner s'' →
      Nests (bound + 1) requester declaration s (level + 1) holder inner s''

variable {services}

/-! ## Why a call halts -/

/-- References that end with a halt have led to a target that does, unless a lookup has failed. -/
theorem exists_reachesTarget_of_error {resolve : Declaration → Build σ TypeNode} {uri : String}
    {positions : List Position} {s : BuildState σ} {halt : Halt}
    (h : (exec (resolveReferences services resolve uri positions) s).1 = .error halt) :
    (∃ failure, halt = .failed (.service failure)) ∨
      ∃ target s', ReachesTarget services resolve uri positions s target s' ∧
        (exec (resolve target) s').1 = .error halt := by
  rw [exec_resolveReferences] at h
  rcases hlooked : exec (lookupTargets services uri positions) s with ⟨halt' | found, looked⟩ <;>
    rw [hlooked] at h
  · cases h
    exact .inl (lookupTargets_error (by rw [hlooked]))
  · obtain ⟨before, target, after, nodes, s', hfound, hbefore, hfail⟩ :=
      exists_split_of_exec_mapM_error h
    exact .inr ⟨target, s', ⟨found, looked, before, after, nodes, hlooked, hfound, hbefore⟩, hfail⟩

theorem exists_target_of_buildNode_error {resolve : Declaration → Build σ TypeNode}
    {declaration : Declaration} {kind : TypeKind} {s : BuildState σ} {halt : Halt}
    (h : (exec (buildNode services resolve declaration kind) s).1 = .error halt) :
    halt = .overflow ∨ (∃ failure, halt = .failed (.service failure)) ∨
      ∃ references target s', declaration.references? kind = some references ∧
        (ReachesTarget services resolve declaration.uri references.superClasses s target s' ∨
          ∃ superClasses s₁,
            exec (resolveReferences services resolve declaration.uri references.superClasses) s =
                (.ok superClasses, s₁) ∧
              ReachesTarget services resolve declaration.uri references.superInterfaces s₁ target
                s') ∧
        (exec (resolve target) s').1 = .error halt := by
  rw [exec_buildNode] at h
  cases hreferences : declaration.references? kind with
  | none =>
    rw [hreferences] at h
    cases h
    exact .inl rfl
  | some references =>
    simp only [hreferences] at h
    rcases hclasses : exec (resolveReferences services resolve declaration.uri
      references.superClasses) s with ⟨halt' | superClasses, s₁⟩ <;> simp only [hclasses] at h
    · cases h
      rcases exists_reachesTarget_of_error (by rw [hclasses]) with
        hservice | ⟨target, s', hreach, hfail⟩
      · exact .inr (.inl hservice)
      · exact .inr (.inr ⟨references, target, s', rfl, .inl hreach, hfail⟩)
    · rcases hinterfaces : exec (resolveReferences services resolve declaration.uri
        references.superInterfaces) s₁ with ⟨halt' | superInterfaces, s₂⟩ <;>
        simp only [hinterfaces] at h
      · cases h
        rcases exists_reachesTarget_of_error (by rw [hinterfaces]) with
          hservice | ⟨target, s', hreach, hfail⟩
        · exact .inr (.inl hservice)
        · exact .inr (.inr ⟨references, target, s', rfl, .inr ⟨superClasses, s₁, hclasses, hreach⟩,
            hfail⟩)
      · cases h

/-- A call, nesting at most `depth + 1` calls, ends with a halt for one of these reasons. -/
inductive HaltCause (services : Services σ) (depth : Nat) (requester : Option DeclarationKey)
    (declaration : Declaration) (s : BuildState σ) : Halt → Prop where
  | invalidKind {error : ResolveError} :
      declaration.typeKind = .error error →
      HaltCause services depth requester declaration s (.failed error)
  | refused {kind : TypeKind} {cycle : List DeclarationKey} :
      declaration.typeKind = .ok kind → s.claims.claim declaration.key requester = .error cycle →
      HaltCause services depth requester declaration s (.failed (.cyclic cycle))
  | waits {kind : TypeKind} {ticket : Nat} {claims : ClaimTable TypeNode} :
      declaration.typeKind = .ok kind →
      s.claims.claim declaration.key requester = .ok (.wait ticket, claims) →
      HaltCause services depth requester declaration s (.blocked declaration.key)
  | overflow : HaltCause services depth requester declaration s .overflow
  | service (failure : ServiceFailure) :
      HaltCause services depth requester declaration s (.failed (.service failure))
  | inside {target : Declaration} {s' : BuildState σ} {halt : Halt} :
      ResolvesInside services depth requester declaration s target s' →
      (exec (resolveFrom services depth (some declaration.key) target) s').1 = .error halt →
      HaltCause services depth requester declaration s halt

theorem haltCause {depth : Nat} {requester : Option DeclarationKey} {declaration : Declaration}
    {s : BuildState σ} {halt : Halt}
    (h : (exec (resolveFrom services (depth + 1) requester declaration) s).1 = .error halt) :
    HaltCause services depth requester declaration s halt := by
  rw [exec_resolveFrom_succ] at h
  cases hkind : declaration.typeKind with
  | error error =>
    rw [hkind] at h
    cases h
    exact .invalidKind hkind
  | ok kind =>
    simp only [hkind] at h
    rcases hclaim : s.claims.claim declaration.key requester with cycle | ⟨answer, claims⟩ <;>
      rw [hclaim] at h
    · cases h
      exact .refused hkind hclaim
    · cases answer with
      | ready node => cases h
      | wait ticket =>
        cases h
        exact .waits hkind hclaim
      | owner =>
        rcases exists_target_of_buildNode_error h with
          rfl | ⟨failure, rfl⟩ | ⟨references, target, s', hreferences, hreach, hfail⟩
        · exact .overflow
        · exact .service failure
        · exact .inside ⟨kind, claims, references, hkind, hclaim, hreferences, hreach⟩ hfail

/-! ## Resolutions that are cut off -/

/-- A resolution that is cut off has come to a call one level above its bound. -/
theorem exists_nests_of_exhausted {bound : Nat} {requester : Option DeclarationKey}
    {declaration : Declaration} {s : BuildState σ}
    (h : (exec (resolveFrom services bound requester declaration) s).1 = .error .exhausted) :
    ∃ holder inner s', Nests services bound requester declaration s (bound + 1) holder inner s' := by
  induction bound generalizing requester declaration s with
  | zero => exact ⟨requester, declaration, s, .outermost⟩
  | succ bound ih =>
    cases haltCause h with
    | inside hinside hfail =>
      obtain ⟨holder, inner, s'', hnests⟩ := ih hfail
      exact ⟨holder, inner, s'', .inside hinside hnests⟩

/-! ## Larger bounds -/

/-- An action does what another does, unless it is cut off by its bound on nesting. -/
def Refines (action longer : Build σ α) : Prop :=
  ∀ s, (exec action s).1 = .error .exhausted ∨ exec longer s = exec action s

namespace Refines

theorem refl (action : Build σ α) : Refines action action :=
  fun _ => .inr rfl

theorem trans {action longer longest : Build σ α} (h : Refines action longer)
    (h' : Refines longer longest) : Refines action longest := by
  intro s
  rcases h s with hcut | heq
  · exact .inl hcut
  · have hlongest := h' s
    rwa [heq] at hlongest

theorem bind {action longer : Build σ α} {next next' : α → Build σ β} (h : Refines action longer)
    (hnext : ∀ a, Refines (next a) (next' a)) : Refines (action >>= next) (longer >>= next') := by
  intro s
  rw [exec_bind, exec_bind]
  rcases h s with hcut | heq
  · left
    rcases hout : exec action s with ⟨halt | a, s'⟩ <;> rw [hout] at hcut <;> cases hcut
    rfl
  · rw [heq]
    rcases exec action s with ⟨halt | a, s'⟩
    · exact .inr rfl
    · exact hnext a s'

theorem mapM {action longer : α → Build σ β} (h : ∀ a, Refines (action a) (longer a)) (as : List α) :
    Refines (as.mapM action) (as.mapM longer) := by
  induction as with
  | nil => exact refl _
  | cons a as ih =>
    rw [List.mapM_cons, List.mapM_cons]
    exact (h a).bind fun b => ih.bind fun bs => refl _

end Refines

variable (services) {resolve resolve' : Declaration → Build σ TypeNode}

theorem refines_resolveReferences (h : ∀ target, Refines (resolve target) (resolve' target))
    (uri : String) (positions : List Position) :
    Refines (resolveReferences services resolve uri positions)
      (resolveReferences services resolve' uri positions) := by
  unfold resolveReferences
  exact (Refines.refl _).bind fun targets => Refines.mapM h targets.flatten

theorem refines_buildNode (h : ∀ target, Refines (resolve target) (resolve' target))
    (declaration : Declaration) (kind : TypeKind) :
    Refines (buildNode services resolve declaration kind)
      (buildNode services resolve' declaration kind) := by
  unfold buildNode
  cases declaration.references? kind with
  | none => exact .refl _
  | some references =>
    refine (refines_resolveReferences services h _ _).bind fun superClasses => ?_
    exact (refines_resolveReferences services h _ _).bind fun superInterfaces => .refl _

theorem refines_resolveFrom_succ (depth : Nat) (requester : Option DeclarationKey)
    (declaration : Declaration) :
    Refines (resolveFrom services depth requester declaration)
      (resolveFrom services (depth + 1) requester declaration) := by
  induction depth generalizing requester declaration with
  | zero => exact fun _ => .inl rfl
  | succ depth ih =>
    intro s
    rw [exec_resolveFrom_succ, exec_resolveFrom_succ]
    cases declaration.typeKind with
    | error error => exact .inr rfl
    | ok kind =>
      dsimp only
      rcases s.claims.claim declaration.key requester with cycle | ⟨_ | _ | _, claims⟩
      · exact .inr rfl
      · exact .inr rfl
      · exact .inr rfl
      · have hnested := refines_buildNode services (ih (some declaration.key)) declaration kind
        rcases hnested { s with claims := claims } with hcut | heq
        · exact .inl hcut
        · dsimp only
          rw [heq]
          exact .inr rfl

variable {services}

/-- A resolution that is not cut off does not see its bound. -/
theorem resolveFrom_of_le {depth bound : Nat} (hle : depth ≤ bound)
    {requester : Option DeclarationKey} {declaration : Declaration} {s : BuildState σ}
    (h : (exec (resolveFrom services depth requester declaration) s).1 ≠ .error .exhausted) :
    exec (resolveFrom services bound requester declaration) s =
      exec (resolveFrom services depth requester declaration) s := by
  have hrefines : Refines (resolveFrom services depth requester declaration)
      (resolveFrom services bound requester declaration) := by
    induction hle with
    | refl => exact .refl _
    | step _ ih => exact ih.trans (refines_resolveFrom_succ services _ requester declaration)
  exact (hrefines s).resolve_left h

/-! ## The chain in flight -/

variable {chain : List DeclarationKey}

/-- A resolution leaves the chain in flight as it was, whatever nodes the table holds. -/
theorem resolveFrom_onChain (depth : Nat) (declaration : Declaration) (s : BuildState σ)
    (hs : s.claims.OnChain chain) :
    (exec (resolveFrom services depth chain.getLast? declaration) s).2.claims.OnChain chain := by
  induction depth generalizing chain declaration s with
  | zero => exact hs
  | succ depth ih =>
    rw [exec_resolveFrom_succ]
    cases declaration.typeKind with
    | error error => exact hs
    | ok kind =>
      dsimp only
      cases hnode : s.claims.nodes.get? declaration.key with
      | some node =>
        rw [ClaimTable.claim_of_resolved _ hnode]
        exact hs
      | none =>
        by_cases hmem : declaration.key ∈ chain
        · rw [hs.claim_of_mem hmem]
          exact hs
        · obtain ⟨claims, hclaim, -, honChain⟩ := hs.claim_of_not_mem hmem hnode
          rw [hclaim]
          -- all that is done before the key is given back leaves the longer chain as it is
          refine ClaimTable.OnChain.publish ?_ _
          refine buildNode_invariant
            (I := fun s' : BuildState σ => s'.claims.OnChain (chain ++ [declaration.key])) ?_ ?_ ?_
            declaration kind honChain
          · intro uri positions s' hs'
            rw [lookupTargets_claims]
            exact hs'
          · intro target s' hs'
            simpa using ih target s' hs'
          · intro s' hs'
            exact hs'

/-- A nested call is made on the chain of the call around it, with the key of that call at its end. -/
theorem ResolvesInside.onChain {depth : Nat} {declaration target : Declaration} {s s' : BuildState σ}
    (h : ResolvesInside services depth chain.getLast? declaration s target s')
    (hs : s.claims.OnChain chain) : s'.claims.OnChain (chain ++ [declaration.key]) := by
  refine h.invariant (I := fun s' => s'.claims.OnChain (chain ++ [declaration.key])) ?_ ?_ ?_
  · intro claims hclaim
    exact (hs.of_owner hclaim).2.2
  · intro uri positions s' hs'
    rw [lookupTargets_claims]
    exact hs'
  · intro inner s' hs'
    simpa using resolveFrom_onChain depth inner s' hs'

end Build
end Lineage
