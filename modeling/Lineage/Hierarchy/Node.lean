import Lineage.Declaration

set_option autoImplicit false

/-! # Nodes of a type hierarchy

A node is a declaration with the nodes of its supertypes. Hierarchies share nodes: two nodes are the
same exactly if they have the same id, which the builder gives out once per node it builds. -/

namespace Lineage

/-- A resolved declaration with its resolved supertypes. -/
structure TypeNode where
  id : Nat
  declaration : Declaration
  /-- What a class extends. -/
  superClasses : List TypeNode
  /-- What a class implements, or what an interface extends. -/
  superInterfaces : List TypeNode

namespace TypeNode

/-- The key of a node's declaration. -/
def key (node : TypeNode) : DeclarationKey :=
  node.declaration.key

/-- The direct supertypes, classes first. -/
def supertypes (node : TypeNode) : List TypeNode :=
  node.superClasses ++ node.superInterfaces

/-- A node is larger than its supertypes. -/
theorem sizeOf_lt_of_mem_supertypes {node super : TypeNode} (h : super ∈ node.supertypes) :
    sizeOf super < sizeOf node := by
  obtain ⟨id, declaration, superClasses, superInterfaces⟩ := node
  rw [TypeNode.mk.sizeOf_spec]
  rcases List.mem_append.mp h with hmem | hmem <;> have := List.sizeOf_lt_of_mem hmem <;>
    dsimp only at this <;> omega

mutual

/-- The nodes `seen` so far and, behind them, those first met on a walk from a node: the node itself,
    then what its super classes reach, then what its super interfaces reach. -/
def visit (seen : List TypeNode) : TypeNode → List TypeNode
  | ⟨id, declaration, superClasses, superInterfaces⟩ =>
    if seen.any fun other => other.id == id then
      seen
    else
      visitAll
        (visitAll (seen ++ [⟨id, declaration, superClasses, superInterfaces⟩]) superClasses)
        superInterfaces

/-- The walk of `visit` from each of some nodes in turn. -/
def visitAll (seen : List TypeNode) : List TypeNode → List TypeNode
  | [] => seen
  | node :: rest => visitAll (visit seen node) rest

end

/-- Every node that can be reached from a node, once, in the order of first meeting. -/
def reachable (node : TypeNode) : List TypeNode :=
  visit [] node

end TypeNode
end Lineage
