import Lineage.Proofs.Hierarchy.Nesting
import Lineage.Proofs.Workspace.Overflow
import Mathlib.Data.List.Dedup
import Mathlib.Data.List.Perm.Subperm

set_option autoImplicit false

/-! # Resolution ends on every workspace

A resolution follows links that the workspace was given, and nothing says how these are arranged: they
may lead back to where they started, or nowhere. What ends the recursion is the claim table. The keys in
flight are a chain of distinct keys, each nested call that builds something adds one to it, and all of
them belong to the root or to declarations that the workspace lists. So no call is nested deeper than
there are such keys, but for one last call, and that one is refused. -/

namespace Lineage
namespace Workspace

open Build

variable {workspace : Workspace} {root declaration target inner : Declaration}
  {s s' : BuildState ServiceCounts} {chain : List DeclarationKey}

/-! ## Builders at rest -/

/-- A builder over a workspace with nothing in flight: what it remembers are answers of the workspace,
    and the nodes in its table may be any. -/
structure Idle (workspace : Workspace) (s : BuildState ServiceCounts) : Prop where
  inFlight : s.claims.inFlight = []
  remembers : Remembers workspace.answers s

theorem Idle.onChain (hs : workspace.Idle s) : s.claims.OnChain [] :=
  ⟨by simp [ClaimTable.dependencies, ClaimTable.links, hs.inFlight], List.nodup_nil, by simp⟩

theorem idle_beginPass (s : BuildState ServiceCounts) : workspace.Idle (beginPass s) :=
  ⟨rfl, remembers_beginPass s⟩

/-- A resolution leaves nothing in flight, however it ends. -/
theorem Idle.exec_resolveWithin (hs : workspace.Idle s) (bound : Nat) (root : Declaration) :
    workspace.Idle (exec (resolveWithin workspace.services bound root) s).2 := by
  have honChain : (exec (resolveWithin workspace.services bound root) s).2.claims.OnChain [] :=
    resolveFrom_onChain bound root s hs.onChain
  refine ⟨?_, resolveFrom_remembers workspace.answersWith bound none root hs.remembers⟩
  simpa [ClaimTable.dependencies, ClaimTable.links] using honChain.links_eq

theorem idle_analyzeDeclarations (s : BuildState ServiceCounts) (bound : Nat) (uri : String)
    (roots : List Declaration) :
    workspace.Idle
      (exec (analyzeDeclarations (resolveWithin workspace.services bound) uri roots) s).2 := by
  rw [analyzeDeclarations, exec_analyzeDeclarationsTraced]
  refine exec_mapM_invariant ?_ roots (idle_beginPass s)
  intro root s' hs'
  rw [analyzeRootTraced_state]
  exact hs'.exec_resolveWithin bound root

theorem Idle.run (hs : workspace.Idle s) (use : Use) : workspace.Idle (use.run workspace s) := by
  cases use with
  | beginPass => exact idle_beginPass s
  | resolve bound root => exact hs.exec_resolveWithin bound root
  | analyzeDeclarations bound uri roots => exact idle_analyzeDeclarations s bound uri roots
  | analyzeDocument bound uri => exact idle_analyzeDeclarations _ bound uri _

/-- Whatever a builder is used for, it is idle afterwards. -/
theorem idle_after_uses (uses : List Use) :
    workspace.Idle (uses.foldl (Use.run workspace) (start .zero)) := by
  suffices h : ∀ s, workspace.Idle s → workspace.Idle (uses.foldl (Use.run workspace) s) from
    h _ ⟨rfl, remembers_afterUses []⟩
  intro s hs
  induction uses generalizing s with
  | nil => exact hs
  | cons use rest ih => exact ih _ (hs.run use)

/-! ## The keys that a resolution can meet -/

/-- The distinct keys of a root and of the declarations of a workspace. -/
def keysFrom (workspace : Workspace) (root : Declaration) : List DeclarationKey :=
  (root.key :: workspace.declarationKeys).dedup

/-- How deep calls nest at most when a root is resolved. -/
def nestingLimit (workspace : Workspace) (root : Declaration) : Nat :=
  (workspace.keysFrom root).length + 1

theorem nestingLimit_le_depthBound (workspace : Workspace) (root : Declaration) :
    workspace.nestingLimit root ≤ depthBound workspace.services := by
  have hle := (List.dedup_sublist (root.key :: workspace.declarationKeys)).length_le
  show (root.key :: workspace.declarationKeys).dedup.length + 1 ≤ workspace.declarationKeys.length + 2
  rw [List.length_cons] at hle
  omega

/-- What a nested call looks up for, the workspace lists. -/
theorem lists_of_resolvesInside {depth : Nat} {requester : Option DeclarationKey}
    (hs : Remembers workspace.answers s)
    (h : ResolvesInside workspace.services depth requester declaration s target s') :
    workspace.Lists target := by
  obtain ⟨kind, claims, references, -, -, -, hreach⟩ := h
  have hclaimed : Remembers workspace.answers { s with claims := claims } := hs
  have hlisted : ∀ {positions : List Position} {s₁ : BuildState ServiceCounts},
      Remembers workspace.answers s₁ →
      ReachesTarget workspace.services (resolveFrom workspace.services depth (some declaration.key))
        declaration.uri positions s₁ target s' → workspace.Lists target := by
    intro positions s₁ hs₁ hreaches
    obtain ⟨found, looked, before, after, nodes, hlooked, hfound, -⟩ := hreaches
    refine lists_of_lookupTargets hs₁ (by rw [hlooked]) ?_
    simp [hfound]
  rcases hreach with hclass | ⟨superClasses, s₁, hclasses, hinterface⟩
  · exact hlisted hclaimed hclass
  · have hremembers := resolveReferences_remembers workspace.answersWith
      (fun inner s' hs' => resolveFrom_remembers workspace.answersWith depth
        (some declaration.key) inner hs') declaration.uri references.superClasses hclaimed
    rw [hclasses] at hremembers
    exact hlisted hremembers hinterface

/-! ## Calls along a chain -/

/-- A call is to resolve `declaration` on behalf of the last key of a chain in flight, and all keys are
    among those that a resolution of `root` can meet. -/
structure Along (workspace : Workspace) (root : Declaration) (chain : List DeclarationKey)
    (declaration : Declaration) (s : BuildState ServiceCounts) : Prop where
  onChain : s.claims.OnChain chain
  remembers : Remembers workspace.answers s
  chain_subset : chain ⊆ workspace.keysFrom root
  key_mem : declaration.key ∈ workspace.keysFrom root

theorem Idle.along (hs : workspace.Idle s) (root : Declaration) : workspace.Along root [] root s :=
  ⟨hs.onChain, hs.remembers, by simp, by simp [keysFrom]⟩

/-- A nested call is on a chain that is longer by one key. -/
theorem Along.inside {depth : Nat} (h : workspace.Along root chain declaration s)
    (hinside : ResolvesInside workspace.services depth chain.getLast? declaration s target s') :
    workspace.Along root (chain ++ [declaration.key]) target s' := by
  have hlists := lists_of_resolvesInside h.remembers hinside
  refine ⟨hinside.onChain h.onChain, ?_, ?_, ?_⟩
  · refine hinside.invariant (I := Remembers workspace.answers) (fun _ _ => h.remembers)
      (lookupTargets_keeps (definitionsAt_remembers workspace.answersWith)) ?_
    intro inner s' hs'
    exact resolveFrom_remembers workspace.answersWith depth (some declaration.key) inner hs'
  · simpa using ⟨h.chain_subset, h.key_mem⟩
  · simp [keysFrom, key_mem_declarationKeys hlists]

/-- Every call is on a chain, and its level is counted by the keys that the chain has gained. -/
theorem Along.nests {bound level : Nat} {holder : Option DeclarationKey}
    (h : workspace.Along root chain declaration s)
    (hnests : Nests workspace.services bound chain.getLast? declaration s level holder inner s') :
    ∃ gained, level = gained.length + 1 ∧ holder = (chain ++ gained).getLast? ∧
      workspace.Along root (chain ++ gained) inner s' := by
  -- the chain grows from level to level, so it is general in the induction
  generalize hrequester : chain.getLast? = requester at hnests
  induction hnests generalizing chain with
  | outermost => exact ⟨[], rfl, by simp [hrequester], by simpa using h⟩
  | @inside _ _ _ _ declaration _ _ _ _ _ hinside _ ih =>
    subst hrequester
    obtain ⟨gained, hlevel, hholder, halong⟩ := ih (h.inside hinside) (by simp)
    exact ⟨declaration.key :: gained, by simp [hlevel], by simpa using hholder, by simpa using halong⟩

/-- The keys of a chain are distinct, so it is no longer than there are keys. -/
theorem Along.length_le (h : workspace.Along root chain declaration s) :
    chain.length ≤ (workspace.keysFrom root).length :=
  h.onChain.nodup.length_le_of_subset h.chain_subset

/-- On a chain of all keys there is nothing left to claim. -/
theorem Along.refused (h : workspace.Along root chain declaration s)
    (hlength : chain.length = (workspace.keysFrom root).length) :
    ∃ cycle, s.claims.claim declaration.key chain.getLast? = .error cycle := by
  -- distinct keys, as many as there are: the chain holds them all, the key asked for among them
  have hperm : chain.Perm (workspace.keysFrom root) :=
    (h.onChain.nodup.subperm h.chain_subset).perm_of_length_le (Nat.le_of_eq hlength.symm)
  exact ⟨_, h.onChain.claim_of_mem (hperm.mem_iff.mpr h.key_mem)⟩

/-- A call at the limit is refused, and none is made above it. -/
theorem Idle.level_le (hs : workspace.Idle s) {bound level : Nat} {holder : Option DeclarationKey}
    (h : Nests workspace.services bound none root s level holder inner s') :
    level ≤ workspace.nestingLimit root ∧
      (level = workspace.nestingLimit root →
        ∃ cycle, s'.claims.claim inner.key holder = .error cycle) := by
  obtain ⟨chain, rfl, rfl, halong⟩ := (hs.along root).nests h
  rw [List.nil_append] at halong ⊢
  refine ⟨Nat.succ_le_succ halong.length_le, ?_⟩
  intro hlevel
  exact halong.refused (Nat.succ.inj hlevel)

/-! ## The recursion as a whole -/

theorem Idle.ne_exhausted (hs : workspace.Idle s) (root : Declaration) :
    (exec (resolveWithin workspace.services (workspace.nestingLimit root) root) s).1 ≠
      .error .exhausted := by
  intro hcut
  obtain ⟨holder, inner, s', hnests⟩ := exists_nests_of_exhausted hcut
  have hlevel := (hs.level_le hnests).1
  omega

/-- **Resolution ends.** However the links of a workspace are arranged, calls nest no deeper than one
    more than there are distinct keys of the root and the declarations of the workspace, and a call as
    deep as that is refused. So a resolution with this bound is not cut off, with any larger bound it
    ends the same way and in the same state, `resolve` does just that, and nothing stays in flight. -/
theorem resolve_ends (workspace : Workspace) {s : BuildState ServiceCounts} (hs : workspace.Idle s)
    (root : Declaration) :
    let limit := workspace.nestingLimit root
    let out := exec (resolveWithin workspace.services limit root) s
    (∀ bound level holder inner s', Nests workspace.services bound none root s level holder inner s' →
      level ≤ limit ∧ (level = limit → ∃ cycle, s'.claims.claim inner.key holder = .error cycle)) ∧
    out.1 ≠ .error .exhausted ∧
    (∀ bound, limit ≤ bound → exec (resolveWithin workspace.services bound root) s = out) ∧
    exec (resolve workspace.services root) s = out ∧
    workspace.Idle out.2 := by
  intro limit out
  have hout : out.1 ≠ .error .exhausted := hs.ne_exhausted root
  refine ⟨?_, hout, ?_, ?_, hs.exec_resolveWithin limit root⟩
  · intro bound level holder inner s' hnests
    exact hs.level_le hnests
  · intro bound hbound
    exact resolveFrom_of_le hbound hout
  · exact resolveFrom_of_le (workspace.nestingLimit_le_depthBound root) hout

/-- The limit is reached where the only class extends itself: the second call is refused. -/
theorem resolve_sampleEdgeClass_ends :
    let s := [Use.beginPass, .resolve 1 sampleEdgeClass].foldl (Use.run sampleEdge) (start .zero)
    let out := exec (resolveWithin sampleEdge.services 2 sampleEdgeClass) s
    sampleEdge.Idle s ∧ sampleEdge.nestingLimit sampleEdgeClass = 2 ∧
      (exec (resolveWithin sampleEdge.services 1 sampleEdgeClass) s).1 = .error .exhausted ∧
      out.1 ≠ .error .exhausted ∧
      ∀ bound, 2 ≤ bound → exec (resolveWithin sampleEdge.services bound sampleEdgeClass) s = out := by
  intro s out
  have hidle : sampleEdge.Idle s := idle_after_uses _
  have hlimit : sampleEdge.nestingLimit sampleEdgeClass = 2 := by decide +kernel
  obtain ⟨-, hends, hlarger, -⟩ := resolve_ends sampleEdge hidle sampleEdgeClass
  rw [hlimit] at hends hlarger
  exact ⟨hidle, hlimit, by rfl, hends, hlarger⟩

end Workspace
end Lineage
