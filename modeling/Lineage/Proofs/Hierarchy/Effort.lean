import Lineage.Proofs.Hierarchy.Cache
import Mathlib.Algebra.GroupWithZero.Nat

set_option autoImplicit false

/-! # What a resolution costs

Every definition lookup of a successful resolution is paid for by a node that the resolution adds: a
node costs one lookup per reference that its declaration makes, and it is built only where its key is
not resolved yet. So however many ways lead to a node, the lookups of a pass are counted off by the
nodes at its end (`resolveFrom_paid`). Which counter is read off the lookups is left open; it only has
to grow by one with each lookup that answers. -/

namespace Lineage

/-! ## References of a declaration -/

/-- The number of references that a declaration makes: what a class extends and implements, what an
    interface extends. -/
def Declaration.referenceCount (declaration : Declaration) : Nat :=
  let clauses := SupertypeClauses.scan declaration.text.toList
  match declaration.kind.typeKind? with
  | some .classType => clauses.extended.toList.length + clauses.implementedNames.length
  | some .interfaceType => clauses.extendedNames.length
  | none => 0

theorem length_of_mapM_eq_some {α β : Type} {f : α → Option β} {as : List α} {bs : List β}
    (h : as.mapM f = some bs) : bs.length = as.length := by
  induction as generalizing bs with
  | nil =>
    cases h
    rfl
  | cons a as ih =>
    rw [List.mapM_cons] at h
    obtain ⟨b, -, h⟩ := Option.bind_eq_some_iff.mp h
    obtain ⟨bs', hrest, h⟩ := Option.bind_eq_some_iff.mp h
    cases h
    rw [List.length_cons, List.length_cons, ih hrest]

/-- The references of a declaration have one position each. -/
theorem Declaration.referenceCount_eq {declaration : Declaration} {kind : TypeKind}
    {references : References} (hkind : declaration.typeKind = .ok kind)
    (h : declaration.references? kind = some references) :
    declaration.referenceCount =
      references.superClasses.length + references.superInterfaces.length := by
  have hkind' : declaration.kind.typeKind? = some kind := by
    unfold typeKind at hkind
    split at hkind
    · next hsome => rw [hsome, Except.ok.inj hkind]
    · cases hkind
  unfold referenceCount
  rw [hkind']
  cases kind with
  | classType =>
    obtain ⟨superClasses, hclasses, h⟩ := Option.bind_eq_some_iff.mp h
    obtain ⟨superInterfaces, hinterfaces, h⟩ := Option.bind_eq_some_iff.mp h
    cases h
    dsimp only
    rw [length_of_mapM_eq_some hclasses, length_of_mapM_eq_some hinterfaces]
  | interfaceType =>
    obtain ⟨superInterfaces, hinterfaces, h⟩ := Option.bind_eq_some_iff.mp h
    cases h
    dsimp only
    rw [length_of_mapM_eq_some hinterfaces, List.length_nil, Nat.zero_add]

/-- The number of references that the declarations of some nodes make. -/
def referenceTotal (nodes : Assoc DeclarationKey TypeNode) : Nat :=
  (nodes.map fun entry => entry.2.declaration.referenceCount).sum

theorem Assoc.insert_of_get?_eq_none {κ ν : Type} [DecidableEq κ] {entries : Assoc κ ν} {key : κ}
    (h : entries.get? key = none) (value : ν) : entries.insert key value = entries ++ [(key, value)] := by
  induction entries with
  | nil => rfl
  | cons entry rest ih =>
    rw [get?] at h
    split at h
    · cases h
    · next hne => rw [insert, if_neg hne, ih h, List.cons_append]

theorem referenceTotal_insert {nodes : Assoc DeclarationKey TypeNode} {key : DeclarationKey}
    (h : nodes.get? key = none) (node : TypeNode) :
    referenceTotal (nodes.insert key node) =
      referenceTotal nodes + node.declaration.referenceCount := by
  rw [Assoc.insert_of_get?_eq_none h]
  simp [referenceTotal]

namespace Build

variable {σ : Type} {services : Services σ} {count : LookupState σ → Nat}
  {chain : List DeclarationKey}

/-! ## Paying for lookups -/

/-- The lookups between two states are those of the nodes added between them. -/
structure Paid (count : LookupState σ → Nat) (s s' : BuildState σ) : Prop where
  balance : count s'.lookups + referenceTotal s.claims.nodes =
    count s.lookups + referenceTotal s'.claims.nodes
  nodup : s.claims.nodes.keys.Nodup → s'.claims.nodes.keys.Nodup

theorem Paid.refl (s : BuildState σ) : Paid count s s :=
  ⟨rfl, id⟩

theorem Paid.trans {s s' s'' : BuildState σ} (h : Paid count s s') (h' : Paid count s' s'') :
    Paid count s s'' := by
  have hfirst := h.balance
  have hsecond := h'.balance
  exact ⟨by omega, fun hnodup => h'.nodup (h.nodup hnodup)⟩

/-- The counter grows by one with each definition lookup that answers. -/
def CountsLookups (services : Services σ) (count : LookupState σ → Nat) : Prop :=
  ∀ uri position found s s', exec (Lookup.definitionsAt services uri position) s = (.ok found, s') →
    count s' = count s + 1

theorem lookupTargets_count (hcount : CountsLookups services count) {uri : String}
    {positions : List Position} {s s' : BuildState σ} {targets : List (List Declaration)}
    (h : exec (lookupTargets services uri positions) s = (.ok targets, s')) :
    count s'.lookups = count s.lookups + positions.length := by
  induction positions generalizing s targets with
  | nil =>
    cases h
    rfl
  | cons position rest ih =>
    rw [lookupTargets, exec_mapM_cons, exec_lookup] at h
    rcases hfirst : exec (Lookup.definitionsAt services uri position) s.lookups with
      ⟨failure | found, lookups⟩ <;> rw [hfirst] at h
    · cases h
    · dsimp only [Except.mapError] at h
      have hlookup := hcount uri position found _ _ hfirst
      rcases hrest : exec (rest.mapM fun position =>
          lookup (Lookup.definitionsAt services uri position)) { s with lookups := lookups } with
        ⟨halt | others, s''⟩ <;> rw [hrest] at h <;> cases h
      have hothers := ih hrest
      dsimp only at hothers
      rw [hothers, hlookup, List.length_cons]
      omega

theorem mapM_paid {resolve : Declaration → Build σ TypeNode}
    (hsound : ∀ declaration s, Sound chain s.claims →
      Resolved chain declaration s (exec (resolve declaration) s))
    (hpaid : ∀ declaration s node s', Sound chain s.claims →
      exec (resolve declaration) s = (.ok node, s') → Paid count s s')
    {targets : List Declaration} {s s' : BuildState σ} {nodes : List TypeNode}
    (hs : Sound chain s.claims) (h : exec (targets.mapM resolve) s = (.ok nodes, s')) :
    Paid count s s' := by
  induction targets generalizing s nodes with
  | nil =>
    cases h
    exact .refl _
  | cons target rest ih =>
    rw [exec_mapM_cons] at h
    have hkept := (hsound target s hs).sound
    rcases hfirst : exec (resolve target) s with ⟨halt | node, s₁⟩ <;> rw [hfirst] at h hkept
    · cases h
    · dsimp only at h
      rcases hrest : exec (rest.mapM resolve) s₁ with ⟨halt | others, s₂⟩ <;> rw [hrest] at h <;>
        cases h
      exact (hpaid target s node s₁ hs hfirst).trans (ih hkept hrest)

/-- References cost one lookup each; what their targets cost is paid for. -/
theorem resolveReferences_paid (hcount : CountsLookups services count)
    {resolve : Declaration → Build σ TypeNode}
    (hsound : ∀ declaration s, Sound chain s.claims →
      Resolved chain declaration s (exec (resolve declaration) s))
    (hpaid : ∀ declaration s node s', Sound chain s.claims →
      exec (resolve declaration) s = (.ok node, s') → Paid count s s')
    {uri : String} {positions : List Position} {s s' : BuildState σ} {nodes : List TypeNode}
    (hs : Sound chain s.claims)
    (h : exec (resolveReferences services resolve uri positions) s = (.ok nodes, s')) :
    count s'.lookups + referenceTotal s.claims.nodes =
        count s.lookups + positions.length + referenceTotal s'.claims.nodes ∧
      (s.claims.nodes.keys.Nodup → s'.claims.nodes.keys.Nodup) := by
  have hclaims := lookupTargets_claims services uri positions s
  rw [exec_resolveReferences] at h
  rcases hlooked : exec (lookupTargets services uri positions) s with ⟨halt | targets, s₁⟩ <;>
    rw [hlooked] at h hclaims
  · cases h
  · dsimp only at hclaims h
    have hlookups := lookupTargets_count hcount hlooked
    have htargets := mapM_paid hsound hpaid (hclaims ▸ hs) h
    have hbalance := htargets.balance
    have hnodup := htargets.nodup
    rw [hclaims] at hbalance hnodup
    exact ⟨by omega, hnodup⟩

/-- A node costs as many lookups as its declaration makes references. -/
theorem buildNode_paid (hcount : CountsLookups services count)
    {resolve : Declaration → Build σ TypeNode}
    (hsound : ∀ declaration s, Sound chain s.claims →
      Resolved chain declaration s (exec (resolve declaration) s))
    (hpaid : ∀ declaration s node s', Sound chain s.claims →
      exec (resolve declaration) s = (.ok node, s') → Paid count s s')
    {declaration : Declaration} {kind : TypeKind} {s s' : BuildState σ} {node : TypeNode}
    (hkind : declaration.typeKind = .ok kind) (hs : Sound chain s.claims)
    (h : exec (buildNode services resolve declaration kind) s = (.ok node, s')) :
    count s'.lookups + referenceTotal s.claims.nodes =
        count s.lookups + declaration.referenceCount + referenceTotal s'.claims.nodes ∧
      (s.claims.nodes.keys.Nodup → s'.claims.nodes.keys.Nodup) := by
  rw [exec_buildNode] at h
  cases hreferences : declaration.references? kind with
  | none =>
    rw [hreferences] at h
    cases h
  | some references =>
    rw [hreferences] at h
    dsimp only at h
    have hkept := (resolveReferences_sound services hsound declaration.uri
      references.superClasses hs).sound
    rcases hclasses : exec (resolveReferences services resolve declaration.uri
      references.superClasses) s with ⟨halt | superClasses, s₁⟩ <;> rw [hclasses] at h hkept
    · cases h
    · dsimp only at h hkept
      rcases hinterfaces : exec (resolveReferences services resolve declaration.uri
        references.superInterfaces) s₁ with ⟨halt | superInterfaces, s₂⟩ <;>
        rw [hinterfaces] at h <;> cases h
      obtain ⟨hfirst, hnodup⟩ := resolveReferences_paid hcount hsound hpaid hs hclasses
      obtain ⟨hsecond, hnodup'⟩ := resolveReferences_paid hcount hsound hpaid hkept hinterfaces
      rw [Declaration.referenceCount_eq hkind hreferences]
      refine ⟨?_, fun hnodes => hnodup' (hnodup hnodes)⟩
      dsimp only
      omega

/-- **Lookups are paid for.** A successful resolution makes as many definition lookups as the
    declarations of the nodes that it adds make references. -/
theorem resolveFrom_paid (hcount : CountsLookups services count) {depth : Nat}
    {declaration : Declaration} {s s' : BuildState σ} {node : TypeNode}
    (hs : Sound chain s.claims)
    (h : exec (resolveFrom services depth chain.getLast? declaration) s = (.ok node, s')) :
    Paid count s s' := by
  induction depth generalizing chain declaration s s' node with
  | zero => cases h
  | succ depth ih =>
    rw [exec_resolveFrom_succ] at h
    cases hkind : declaration.typeKind with
    | error error =>
      rw [hkind] at h
      cases h
    | ok kind =>
      rw [hkind] at h
      dsimp only at h
      cases hnode : s.claims.nodes.get? declaration.key with
      | some node =>
        -- nothing is looked up for a key that is resolved
        rw [ClaimTable.claim_of_resolved _ hnode] at h
        cases h
        exact .refl _
      | none =>
        by_cases hmem : declaration.key ∈ chain
        · rw [hs.claim_of_mem hmem] at h
          cases h
        · obtain ⟨claims, hclaim, hnodes, honChain⟩ := hs.claim_of_not_mem hmem hnode
          rw [hclaim] at h
          dsimp only at h
          have hstart : Sound (chain ++ [declaration.key]) { s with claims := claims }.claims :=
            ⟨honChain, hnodes ▸ hs.complete⟩
          have hnested : ∀ target s', Sound (chain ++ [declaration.key]) s'.claims →
              Resolved (chain ++ [declaration.key]) target s'
                (exec (resolveFrom services depth (some declaration.key) target) s') := by
            intro target s' hs'
            simpa using resolveFrom_sound services depth target s' hs'
          have hnestedPaid : ∀ target s₁ node s₂, Sound (chain ++ [declaration.key]) s₁.claims →
              exec (resolveFrom services depth (some declaration.key) target) s₁ = (.ok node, s₂) →
                Paid count s₁ s₂ := by
            intro target s₁ node s₂ hs₁ hout
            exact ih hs₁ (by simpa using hout)
          have hbuilt := buildNode_sound services hnested declaration kind hstart
          rcases hout : exec (buildNode services (resolveFrom services depth
            (some declaration.key)) declaration kind) { s with claims := claims } with
            ⟨halt | built, s₁⟩ <;> rw [hout] at h hbuilt <;> cases h
          obtain ⟨hbalance, hnodup⟩ := buildNode_paid hcount hnested hnestedPaid hkind hstart hout
          have hfresh : s₁.claims.nodes.get? declaration.key = none :=
            hbuilt.sound.fresh _ (by simp)
          have htotal := referenceTotal_insert hfresh node
          rw [hbuilt.declaration_eq node rfl] at htotal
          dsimp only at hbalance hnodup
          rw [hnodes] at hbalance hnodup
          constructor
          · show count s₁.lookups + referenceTotal s.claims.nodes =
              count s.lookups + referenceTotal (s₁.claims.nodes.insert declaration.key node)
            omega
          · intro hunique
            exact Assoc.nodup_keys_insert (hnodup hunique) declaration.key node

end Build
end Lineage
