import Lineage.Hierarchy.Node
import Lineage.Modifier

set_option autoImplicit false

/-! # Overriding and implementing members

A member of a declaration is paired with every member of the same name in an ancestor, once for each
path that leads there. Names alone decide; overloads are not told apart. -/

namespace Lineage

/-- How a member relates to a member of the same name in an ancestor. -/
inductive MemberRelation where
  | overrides
  | implements
deriving DecidableEq

/-- The word for a relation. -/
def MemberRelation.title : MemberRelation → String
  | overrides => "Override"
  | implements => "Implement"

/-- A member together with a member of the same name in an ancestor. -/
structure MemberPairing where
  /-- The member of the declaration asked about. -/
  member : Member
  /-- The ancestor that declares `ancestorMember`. -/
  ancestor : DeclarationKey
  ancestorMember : Member
  relation : MemberRelation
deriving DecidableEq

/-- How members of `root` relate to a member of an ancestor. An interface always overrides; a class
    implements what an interface declares or what is declared `abstract`, and overrides the rest. -/
def relationTo (root ancestor : Declaration) (ancestorMember : Member) : MemberRelation :=
  if root.isInterface then
    .overrides
  else if ancestor.isInterface || ancestorMember.hasModifier "abstract" then
    .implements
  else
    .overrides

/-- The pairings of a declaration's members with those of one ancestor, in the ancestor's order. The
    first member of a name stands for all of them. -/
def pairingsWith (root ancestor : Declaration) : List MemberPairing :=
  ancestor.members.filterMap fun ancestorMember =>
    (root.member? ancestorMember.name).map fun member =>
      ⟨member, ancestor.key, ancestorMember, relationTo root ancestor ancestorMember⟩

namespace TypeNode

mutual

/-- The pairings of `root` with a node and all its ancestors, depth first. -/
def pairings (root : Declaration) : TypeNode → List MemberPairing
  | ⟨_, declaration, superClasses, superInterfaces⟩ =>
    pairingsWith root declaration ++ pairingsOfAll root superClasses ++
      pairingsOfAll root superInterfaces

/-- The pairings of `root` with each of some nodes and their ancestors. -/
def pairingsOfAll (root : Declaration) : List TypeNode → List MemberPairing
  | [] => []
  | node :: rest => pairings root node ++ pairingsOfAll root rest

end

/-- The pairings of a declaration's members with those of all its ancestors: depth first, super classes
    before super interfaces. -/
def classify (root : TypeNode) : List MemberPairing :=
  pairingsOfAll root.declaration root.supertypes

end TypeNode
end Lineage
