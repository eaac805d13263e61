import Lineage.Proofs.Classification.Walks
import Lineage.Proofs.Workspace.Supertypes

set_option autoImplicit false

/-! # Paths to ancestors

A declaration of a workspace has paths of supertypes before anything is resolved. They are those of its
node, if it has one, so what is known about the classification of a node can be said of the declaration
alone. -/

namespace Lineage
namespace Workspace

variable {workspace : Workspace}

/-- Where a path of supertypes leads to, if it is one. -/
def follow (workspace : Workspace) : Declaration → List Nat → Option Declaration
  | declaration, [] => some declaration
  | declaration, step :: path =>
    match (workspace.supertypes declaration)[step]? with
    | some super => workspace.follow super path
    | none => none

/-- The node of a declaration has the same paths as the declaration. -/
theorem follow_of_resolveAlong {depth : Nat} {chain : List DeclarationKey} {declaration : Declaration}
    {node : TypeNode} (h : workspace.answers.resolveAlong depth chain declaration = .ok node)
    (path : List Nat) :
    workspace.follow declaration path = (node.follow path).map TypeNode.declaration := by
  induction path generalizing depth chain declaration node with
  | nil => simp [follow, TypeNode.follow, (resolveAlong_ok h).1]
  | cons step path ih =>
    obtain ⟨-, -, below, hall⟩ := resolveAlong_ok h
    have hlength := hall.length_eq
    unfold follow TypeNode.follow
    by_cases hstep : step < node.supertypes.length
    · have hstep' : step < (workspace.supertypes declaration).length := by omega
      have hsuper := (List.forall₂_iff_get.mp hall).2 step hstep' hstep
      rw [List.getElem?_eq_getElem hstep, List.getElem?_eq_getElem hstep']
      exact ih hsuper
    · have hnode : node.supertypes[step]? = none := List.getElem?_eq_none (by omega)
      rw [hnode, List.getElem?_eq_none (by omega)]
      rfl

/-- **Classification goes along all paths.** The pairings of a declaration that resolves are those with
    the ends of all paths of at least one step, in depth-first order. -/
theorem classify_eq {depth : Nat} {declaration : Declaration} {node : TypeNode}
    (h : workspace.answers.resolveAlong depth [] declaration = .ok node) :
    ∃ paths : List (List Nat), paths.Pairwise (· < ·) ∧
      (∀ path, path ∈ paths ↔ path ≠ [] ∧ (workspace.follow declaration path).isSome) ∧
      node.classify = paths.flatMap fun path =>
        (workspace.follow declaration path).toList.flatMap (pairingsWith declaration) := by
  obtain ⟨paths, hsorted, hcomplete, hclassify⟩ := node.classify_eq_flatMap
  refine ⟨paths, hsorted, ?_, ?_⟩
  · intro path
    rw [hcomplete, follow_of_resolveAlong h, Option.isSome_map]
  · rw [hclassify, (resolveAlong_ok h).1]
    refine List.flatMap_congr fun path _ => ?_
    rw [follow_of_resolveAlong h]
    cases node.follow path <;> rfl

end Workspace
end Lineage
