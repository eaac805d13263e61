import Lineage.Proofs.Claim.Chain
import Lineage.Proofs.Hierarchy.Steps

set_option autoImplicit false

/-! # The cache of resolved nodes

What holds of the claim table of a builder whatever its services do: change their minds, fail at any
call, answer with declarations that contradict each other. The resolutions in flight form a chain
(`OnChain`), and the nodes are complete: each is kept under its own key together with all its
supertypes. `resolveFrom_sound` says what one resolution does to such a table, by induction on its
depth: it adds nodes and takes none away, it leaves the chain as it was, and it ends with its node in
the table or, if it fails, with neither its own key nor any key of the chain that led to the failure
in the table. -/

namespace Lineage

/-! ## Complete sets of nodes -/

/-- Nodes kept under their own keys, each with all its supertypes. -/
structure Complete (nodes : Assoc DeclarationKey TypeNode) : Prop where
  key_eq : ∀ {key node}, nodes.get? key = some node → node.key = key
  typeKind : ∀ {key node}, nodes.get? key = some node →
    ∃ kind, node.declaration.typeKind = .ok kind
  supertypes : ∀ {key node}, nodes.get? key = some node →
    ∀ super ∈ node.supertypes, nodes.get? super.key = some super

/-- The nodes of `earlier` are all among those of `later`. -/
def Keeps (earlier later : Assoc DeclarationKey TypeNode) : Prop :=
  ∀ key node, earlier.get? key = some node → later.get? key = some node

theorem Keeps.refl (nodes : Assoc DeclarationKey TypeNode) : Keeps nodes nodes :=
  fun _ _ h => h

theorem Keeps.trans {first second third : Assoc DeclarationKey TypeNode}
    (h : Keeps first second) (h' : Keeps second third) : Keeps first third :=
  fun key node hnode => h' key node (h key node hnode)

theorem Keeps.insert {nodes : Assoc DeclarationKey TypeNode} {key : DeclarationKey}
    (hnone : nodes.get? key = none) (node : TypeNode) : Keeps nodes (nodes.insert key node) := by
  intro other old hold
  have hne : key ≠ other := by
    rintro rfl
    rw [hnone] at hold
    cases hold
  rw [Assoc.get?_insert, if_neg hne]
  exact hold

theorem Complete.nil : Complete [] := by
  constructor <;> intro key node h <;> cases h

/-- A new node whose supertypes are all there completes the set. -/
theorem Complete.insert {nodes : Assoc DeclarationKey TypeNode} (h : Complete nodes)
    {node : TypeNode} (hnone : nodes.get? node.key = none)
    (hkind : ∃ kind, node.declaration.typeKind = .ok kind)
    (hsuper : ∀ super ∈ node.supertypes, nodes.get? super.key = some super) :
    Complete (nodes.insert node.key node) := by
  have hkeeps := Keeps.insert hnone node
  -- a node of the new set is the new one or an old one
  have hcases : ∀ {key found}, (nodes.insert node.key node).get? key = some found →
      (node.key = key ∧ node = found) ∨ nodes.get? key = some found := by
    intro key found hfound
    rw [Assoc.get?_insert] at hfound
    split at hfound
    · next heq => exact .inl ⟨heq, Option.some.inj hfound⟩
    · exact .inr hfound
  constructor
  · intro key found hfound
    rcases hcases hfound with ⟨heq, rfl⟩ | hold
    · exact heq
    · exact h.key_eq hold
  · intro key found hfound
    rcases hcases hfound with ⟨-, rfl⟩ | hold
    · exact hkind
    · exact h.typeKind hold
  · intro key found hfound super hmem
    rcases hcases hfound with ⟨-, rfl⟩ | hold
    · exact hkeeps _ _ (hsuper super hmem)
    · exact hkeeps _ _ (h.supertypes hold super hmem)

/-! ## Sound tables -/

/-- A chain of resolutions in flight, and complete nodes. -/
structure Sound (chain : List DeclarationKey) (table : ClaimTable TypeNode) : Prop extends
    table.OnChain chain where
  complete : Complete table.nodes

theorem Sound.publish_none {chain : List DeclarationKey} {key : DeclarationKey}
    {table : ClaimTable TypeNode} (h : Sound (chain ++ [key]) table) :
    Sound chain (table.publish key none) :=
  ⟨h.toOnChain.publish none, h.complete⟩

theorem Sound.publish_some {chain : List DeclarationKey} {node : TypeNode}
    {table : ClaimTable TypeNode} (h : Sound (chain ++ [node.key]) table)
    (hkind : ∃ kind, node.declaration.typeKind = .ok kind)
    (hsuper : ∀ super ∈ node.supertypes, table.nodes.get? super.key = some super) :
    Sound chain (table.publish node.key (some node)) := by
  have hnone := h.fresh node.key (by simp)
  exact ⟨h.toOnChain.publish (some node), h.complete.insert hnone hkind hsuper⟩

theorem Sound.empty (ticket : Nat) : Sound [] ⟨[], [], ticket⟩ :=
  ⟨⟨rfl, List.nodup_nil, by simp⟩, .nil⟩

/-- With an empty chain nothing is in flight. -/
theorem Sound.inFlight_eq_nil {table : ClaimTable TypeNode} (h : Sound [] table) :
    table.inFlight = [] := by
  have hlinks := h.links_eq
  rwa [ClaimTable.dependencies, ClaimTable.links, List.map_eq_nil_iff] at hlinks

namespace Build

variable {σ : Type} (services : Services σ) {chain : List DeclarationKey}

/-! ## What a resolution does to a sound table -/

/-- What a resolution of `declaration` on behalf of the last key of `chain` does to the table. -/
structure Resolved (chain : List DeclarationKey) (declaration : Declaration) (s : BuildState σ)
    (out : Except Halt TypeNode × BuildState σ) : Prop where
  sound : Sound chain out.2.claims
  keeps : Keeps s.claims.nodes out.2.claims.nodes
  cached : ∀ node, out.1 = .ok node → out.2.claims.nodes.get? declaration.key = some node
  uncached : ∀ halt, out.1 = .error halt → halt ≠ .exhausted →
    out.2.claims.nodes.get? declaration.key = none
  unblocked : ∀ key, out.1 ≠ .error (.blocked key)

/-- What the resolution of several declarations does to the table. -/
structure ResolvedAll (chain : List DeclarationKey) (s : BuildState σ)
    (out : Except Halt (List TypeNode) × BuildState σ) : Prop where
  sound : Sound chain out.2.claims
  keeps : Keeps s.claims.nodes out.2.claims.nodes
  cached : ∀ nodes, out.1 = .ok nodes →
    ∀ node ∈ nodes, out.2.claims.nodes.get? node.key = some node
  unblocked : ∀ key, out.1 ≠ .error (.blocked key)

variable {resolve : Declaration → Build σ TypeNode}

theorem mapM_sound
    (hresolve : ∀ declaration s, Sound chain s.claims →
      Resolved chain declaration s (exec (resolve declaration) s))
    (targets : List Declaration) {s : BuildState σ} (hs : Sound chain s.claims) :
    ResolvedAll chain s (exec (targets.mapM resolve) s) := by
  induction targets generalizing s with
  | nil => exact ⟨hs, .refl _, by rintro _ ⟨⟩; simp, by simp⟩
  | cons target rest ih =>
    have hfirst := hresolve target s hs
    rw [exec_mapM_cons]
    rcases hout : exec (resolve target) s with ⟨halt | node, s'⟩ <;> rw [hout] at hfirst
    · refine ⟨hfirst.sound, hfirst.keeps, by rintro _ ⟨⟩, ?_⟩
      rintro key ⟨⟩
      exact hfirst.unblocked key rfl
    · have hrest := ih hfirst.sound
      dsimp only
      rcases hout' : exec (rest.mapM resolve) s' with ⟨halt | nodes, s''⟩ <;> rw [hout'] at hrest
      · exact ⟨hrest.sound, hfirst.keeps.trans hrest.keeps, by rintro _ ⟨⟩,
          fun key hkey => hrest.unblocked key (by cases hkey; rfl)⟩
      · refine ⟨hrest.sound, hfirst.keeps.trans hrest.keeps, ?_, by simp⟩
        rintro _ ⟨⟩ other hother
        rcases List.mem_cons.mp hother with rfl | hmem
        · have hnode := hfirst.cached other rfl
          rw [hfirst.sound.complete.key_eq hnode]
          exact hrest.keeps _ _ hnode
        · exact hrest.cached nodes rfl other hmem

theorem resolveReferences_sound
    (hresolve : ∀ declaration s, Sound chain s.claims →
      Resolved chain declaration s (exec (resolve declaration) s))
    (uri : String) (positions : List Position) {s : BuildState σ} (hs : Sound chain s.claims) :
    ResolvedAll chain s (exec (resolveReferences services resolve uri positions) s) := by
  have hclaims := lookupTargets_claims services uri positions s
  rw [exec_resolveReferences]
  rcases hout : exec (lookupTargets services uri positions) s with ⟨halt | targets, s'⟩ <;>
    rw [hout] at hclaims
  · obtain ⟨failure, rfl⟩ := lookupTargets_error (by rw [hout])
    exact ⟨hclaims ▸ hs, by rw [hclaims]; exact .refl _, by rintro _ ⟨⟩, by simp⟩
  · have hall := mapM_sound hresolve targets.flatten (s := s') (hclaims ▸ hs)
    exact ⟨hall.sound, hclaims ▸ hall.keeps, hall.cached, hall.unblocked⟩

/-- While a declaration is built, nothing but its supertypes enters the table, and a finished node
    has all of them there. -/
structure Built (chain : List DeclarationKey) (declaration : Declaration) (s : BuildState σ)
    (out : Except Halt TypeNode × BuildState σ) : Prop where
  sound : Sound chain out.2.claims
  keeps : Keeps s.claims.nodes out.2.claims.nodes
  declaration_eq : ∀ node, out.1 = .ok node → node.declaration = declaration
  supertypes : ∀ node, out.1 = .ok node →
    ∀ super ∈ node.supertypes, out.2.claims.nodes.get? super.key = some super
  unblocked : ∀ key, out.1 ≠ .error (.blocked key)

theorem buildNode_sound
    (hresolve : ∀ declaration s, Sound chain s.claims →
      Resolved chain declaration s (exec (resolve declaration) s))
    (declaration : Declaration) (kind : TypeKind) {s : BuildState σ} (hs : Sound chain s.claims) :
    Built chain declaration s (exec (buildNode services resolve declaration kind) s) := by
  rw [exec_buildNode]
  cases declaration.references? kind with
  | none => exact ⟨hs, .refl _, by rintro _ ⟨⟩, by rintro _ ⟨⟩, by simp⟩
  | some references =>
    have hclasses := resolveReferences_sound services hresolve declaration.uri
      references.superClasses hs
    dsimp only
    rcases hout : exec (resolveReferences services resolve declaration.uri references.superClasses) s
      with ⟨halt | superClasses, s'⟩ <;> rw [hout] at hclasses
    · exact ⟨hclasses.sound, hclasses.keeps, by rintro _ ⟨⟩, by rintro _ ⟨⟩,
        fun key hkey => hclasses.unblocked key (by cases hkey; rfl)⟩
    · have hinterfaces := resolveReferences_sound services hresolve declaration.uri
        references.superInterfaces hclasses.sound
      have hkeeps := hclasses.keeps.trans hinterfaces.keeps
      dsimp only
      rcases hout' : exec (resolveReferences services resolve declaration.uri
        references.superInterfaces) s' with ⟨halt | superInterfaces, s''⟩ <;>
        rw [hout'] at hinterfaces hkeeps
      · exact ⟨hinterfaces.sound, hkeeps, by rintro _ ⟨⟩, by rintro _ ⟨⟩,
          fun key hkey => hinterfaces.unblocked key (by cases hkey; rfl)⟩
      · refine ⟨hinterfaces.sound, hkeeps, by rintro _ ⟨⟩; rfl, ?_, by simp⟩
        rintro _ ⟨⟩ super hsuper
        rcases List.mem_append.mp hsuper with hmem | hmem
        · exact hinterfaces.keeps _ _ (hclasses.cached superClasses rfl super hmem)
        · exact hinterfaces.cached superInterfaces rfl super hmem

/-- One resolution on a sound table, whatever the services do. -/
theorem resolveFrom_sound (depth : Nat) (declaration : Declaration) (s : BuildState σ)
    (hs : Sound chain s.claims) :
    Resolved chain declaration s
      (exec (resolveFrom services depth chain.getLast? declaration) s) := by
  -- the chain grows with every nested call, so it is general in the induction on the depth
  induction depth generalizing chain declaration s with
  | zero =>
    rw [exec_resolveFrom_zero]
    exact ⟨hs, .refl _, by rintro _ ⟨⟩, by rintro _ ⟨⟩ hne; exact absurd rfl hne, by simp⟩
  | succ depth ih =>
    rw [exec_resolveFrom_succ]
    cases hkind : declaration.typeKind with
    | error error =>
      refine ⟨hs, .refl _, by rintro _ ⟨⟩, ?_, by simp⟩
      rintro _ ⟨⟩ -
      -- only types are ever kept, so a key of another kind is not in the table
      refine Option.eq_none_iff_forall_ne_some.mpr fun node hnode => ?_
      obtain ⟨kind, hnodeKind⟩ := hs.complete.typeKind hnode
      have hkey : node.declaration.kind = declaration.kind :=
        congrArg DeclarationKey.kind (hs.complete.key_eq hnode)
      rw [Declaration.typeKind, hkey] at hnodeKind
      rw [Declaration.typeKind] at hkind
      split at hkind
      · cases hkind
      · next hnone => rw [hnone] at hnodeKind; cases hnodeKind
    | ok kind =>
      dsimp only
      cases hnode : s.claims.nodes.get? declaration.key with
      | some node =>
        rw [ClaimTable.claim_of_resolved _ hnode]
        refine ⟨hs, .refl _, ?_, by rintro _ ⟨⟩, by simp⟩
        rintro _ ⟨⟩
        exact hnode
      | none =>
        by_cases hmem : declaration.key ∈ chain
        · rw [hs.claim_of_mem hmem]
          exact ⟨hs, .refl _, by rintro _ ⟨⟩, fun _ _ _ => hnode, by simp⟩
        · obtain ⟨claims, hclaim, hnodes, honChain⟩ := hs.claim_of_not_mem hmem hnode
          rw [hclaim]
          dsimp only
          have hnested : ∀ target s', Sound (chain ++ [declaration.key]) s'.claims →
              Resolved (chain ++ [declaration.key]) target s'
                (exec (resolveFrom services depth (some declaration.key) target) s') :=
            fun target s' hs' => by simpa using ih target s' hs'
          have hbuilt := buildNode_sound services hnested declaration kind
            (s := { s with claims := claims }) ⟨honChain, hnodes ▸ hs.complete⟩
          have hkeeps : Keeps s.claims.nodes _ := hnodes ▸ hbuilt.keeps
          rcases hout : exec (buildNode services (resolveFrom services depth
            (some declaration.key)) declaration kind) { s with claims := claims } with
            ⟨halt | node, s'⟩ <;> rw [hout] at hbuilt hkeeps
          · exact ⟨hbuilt.sound.publish_none, hkeeps, by rintro _ ⟨⟩,
              fun _ _ _ => hbuilt.sound.fresh _ (by simp),
              fun key hkey => hbuilt.unblocked key (by cases hkey; rfl)⟩
          · have hdecl : node.key = declaration.key :=
              congrArg Declaration.key (hbuilt.declaration_eq node rfl)
            have hsound := hbuilt.sound
            rw [← hdecl] at hsound ⊢
            refine ⟨hsound.publish_some ⟨kind, ?_⟩ (hbuilt.supertypes node rfl),
              hkeeps.trans (Keeps.insert (hsound.fresh _ (by simp)) node), ?_, by rintro _ ⟨⟩,
              by simp⟩
            · rw [hbuilt.declaration_eq node rfl]
              exact hkind
            · rintro _ ⟨⟩
              show (s'.claims.nodes.insert node.key node).get? declaration.key = some node
              rw [← hdecl, Assoc.get?_insert, if_pos rfl]

end Build
end Lineage
