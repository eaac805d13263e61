import Lineage.Classification
import Mathlib.Data.List.Forall2

set_option autoImplicit false

/-! # Classification as a walk along all paths

Classification pairs the members of a root with those of an ancestor once for each path that leads
there. A path is written as a list of numbers, each of them the place of the next node among the
supertypes of the one before, so a supertype that stands there twice is on two paths. Depth-first order
is then the lexicographic order of the paths. `Pairs` says what one pairing holds, without the
definitions that compute it. -/

namespace Lineage

/-! ## What a pairing holds -/

/-- The members of an ancestor that have a namesake in the root. -/
def sharedMembers (root ancestor : Declaration) : List Member :=
  ancestor.members.filter fun ancestorMember =>
    ∃ member ∈ root.members, member.name = ancestorMember.name

/-- The pairing that belongs to a member of an ancestor. -/
structure Pairs (root ancestor : Declaration) (ancestorMember : Member) (pairing : MemberPairing) :
    Prop where
  name_eq : pairing.member.name = ancestorMember.name
  /-- Of the root's members of that name it is the first. -/
  first : ∃ before after, root.members = before ++ pairing.member :: after ∧
    ∀ earlier ∈ before, earlier.name ≠ ancestorMember.name
  ancestor_eq : pairing.ancestor = ancestor.key
  ancestorMember_eq : pairing.ancestorMember = ancestorMember
  /-- Whatever does not implement overrides. -/
  implements_iff : pairing.relation = .implements ↔ root.kind ≠ .interfaceType ∧
    (ancestor.kind = .interfaceType ∨ ancestorMember.hasModifier "abstract" = true)

theorem relationTo_eq_implements_iff (root ancestor : Declaration) (ancestorMember : Member) :
    relationTo root ancestor ancestorMember = .implements ↔ root.kind ≠ .interfaceType ∧
      (ancestor.kind = .interfaceType ∨ ancestorMember.hasModifier "abstract" = true) := by
  unfold relationTo Declaration.isInterface
  by_cases hroot : root.kind = .interfaceType
  · simp [hroot]
  · simp [hroot, or_iff_not_imp_left]

theorem pairs_of_member? {root : Declaration} (ancestor : Declaration) {ancestorMember member : Member}
    (h : root.member? ancestorMember.name = some member) :
    Pairs root ancestor ancestorMember
      ⟨member, ancestor.key, ancestorMember, relationTo root ancestor ancestorMember⟩ := by
  obtain ⟨hname, before, after, hmembers, hbefore⟩ := List.find?_eq_some_iff_append.mp h
  refine ⟨by simpa using hname, ⟨before, after, hmembers, ?_⟩, rfl, rfl,
    relationTo_eq_implements_iff root ancestor ancestorMember⟩
  intro earlier hearlier
  simpa using hbefore earlier hearlier

/-- One pairing for each shared member, in the ancestor's order. -/
theorem pairingsWith_pairs (root ancestor : Declaration) :
    List.Forall₂ (Pairs root ancestor) (sharedMembers root ancestor) (pairingsWith root ancestor) := by
  unfold sharedMembers pairingsWith
  induction ancestor.members with
  | nil => exact .nil
  | cons ancestorMember rest ih =>
    cases hmember : root.member? ancestorMember.name with
    | none =>
      have hall : ∀ member ∈ root.members, member.name ≠ ancestorMember.name := by
        simpa [Declaration.member?] using hmember
      rw [List.filter_cons_of_neg (by simpa using hall), List.filterMap_cons, hmember]
      exact ih
    | some member =>
      have hany : ∃ member ∈ root.members, member.name = ancestorMember.name :=
        ⟨member, List.mem_of_find?_eq_some hmember, by simpa using List.find?_some hmember⟩
      rw [List.filter_cons_of_pos (by simpa using hany), List.filterMap_cons, hmember]
      exact .cons (pairs_of_member? ancestor hmember) ih

namespace TypeNode

/-! ## Following a path -/

/-- Where a path of supertypes leads to, if it is one. -/
def follow : TypeNode → List Nat → Option TypeNode
  | node, [] => some node
  | node, step :: path => node.supertypes[step]?.bind fun super => super.follow path

/-- Where a path leads to that starts with the choice of one of some nodes. -/
def followFrom (nodes : List TypeNode) : List Nat → Option TypeNode
  | [] => none
  | step :: path => nodes[step]?.bind fun node => node.follow path

theorem follow_cons (node : TypeNode) (step : Nat) (path : List Nat) :
    node.follow (step :: path) = followFrom node.supertypes (step :: path) := rfl

/-- The same path with the first choice moved by one. -/
def shift : List Nat → List Nat
  | [] => []
  | step :: path => (step + 1) :: path

theorem followFrom_shift (node : TypeNode) (nodes : List TypeNode) (path : List Nat) :
    followFrom (node :: nodes) (shift path) = followFrom nodes path := by
  cases path <;> rfl

theorem shift_lt_shift {path other : List Nat} (h : path < other) : shift path < shift other := by
  cases path with
  | nil =>
    cases other with
    | nil => exact absurd h (List.lt_irrefl [])
    | cons step other => exact List.nil_lt_cons _ _
  | cons step path =>
    cases other with
    | nil => exact absurd h (List.not_lt_nil _)
    | cons step' other =>
      rw [shift, shift, List.cons_lt_cons_iff]
      rcases List.cons_lt_cons_iff.mp h with hlt | ⟨rfl, hlt⟩
      · exact .inl (Nat.succ_lt_succ hlt)
      · exact .inr ⟨rfl, hlt⟩

/-! ## Walks -/

/-- All paths that lead somewhere, in depth-first order. -/
structure Walk (ends : List Nat → Option TypeNode) (paths : List (List Nat)) : Prop where
  sorted : paths.Pairwise (· < ·)
  complete : ∀ path, path ∈ paths ↔ (ends path).isSome

/-- The pairings of `root` with the nodes at the ends of some paths. -/
def pairingsAlong (root : Declaration) (ends : List Nat → Option TypeNode)
    (paths : List (List Nat)) : List MemberPairing :=
  paths.flatMap fun path =>
    (ends path).toList.flatMap fun ancestor => pairingsWith root ancestor.declaration

/-- There is nowhere to go without a node. -/
theorem Walk.nil : Walk (followFrom []) [] where
  sorted := .nil
  complete path := by cases path <;> simp [followFrom]

/-- To choose one of some nodes takes a step. -/
theorem Walk.nil_not_mem {nodes : List TypeNode} {paths : List (List Nat)}
    (h : Walk (followFrom nodes) paths) : [] ∉ paths := by
  rw [h.complete]
  simp [followFrom]

/-- A walk from a node starts where it is and goes on from its supertypes. -/
theorem Walk.follow {node : TypeNode} {paths : List (List Nat)}
    (h : Walk (followFrom node.supertypes) paths) : Walk node.follow ([] :: paths) where
  sorted := by
    refine List.pairwise_cons.mpr ⟨fun path hmem => ?_, h.sorted⟩
    cases path with
    | nil => exact absurd hmem h.nil_not_mem
    | cons step path => exact List.nil_lt_cons _ _
  complete path := by
    cases path with
    | nil => simp [TypeNode.follow]
    | cons step path =>
      rw [follow_cons, ← h.complete, List.mem_cons]
      exact or_iff_right (List.cons_ne_nil _ _)

/-- A walk from some nodes goes through the first and then through the others. -/
theorem Walk.cons {node : TypeNode} {nodes : List TypeNode} {paths paths' : List (List Nat)}
    (h : Walk node.follow paths) (h' : Walk (followFrom nodes) paths') :
    Walk (followFrom (node :: nodes)) (paths.map (List.cons 0) ++ paths'.map shift) where
  sorted := by
    refine List.pairwise_append.mpr ⟨?_, ?_, ?_⟩
    · refine List.pairwise_map.mpr (h.sorted.imp fun hlt => ?_)
      exact List.cons_lt_cons_iff.mpr (.inr ⟨rfl, hlt⟩)
    · exact List.pairwise_map.mpr (h'.sorted.imp shift_lt_shift)
    · intro first hfirst second hsecond
      obtain ⟨path, -, rfl⟩ := List.mem_map.mp hfirst
      obtain ⟨path', hmem, rfl⟩ := List.mem_map.mp hsecond
      cases path' with
      | nil => exact absurd hmem h'.nil_not_mem
      | cons step path' => exact List.cons_lt_cons_iff.mpr (.inl (Nat.succ_pos step))
  complete path := by
    rw [List.mem_append, List.mem_map, List.mem_map]
    -- which of the two walks a path belongs to is told by its first step
    match path with
    | [] =>
      refine ⟨?_, by simp [followFrom]⟩
      rintro (⟨_, _, ⟨⟩⟩ | ⟨path', hmem, hshift⟩)
      cases path' with
      | nil => exact absurd hmem h'.nil_not_mem
      | cons step path' => cases hshift
    | 0 :: path =>
      refine Iff.trans ⟨?_, fun hmem => .inl ⟨path, hmem, rfl⟩⟩ (h.complete path)
      rintro (⟨path', hmem, heq⟩ | ⟨path', hmem, hshift⟩)
      · exact (List.cons.inj heq).2 ▸ hmem
      · cases path' <;> cases hshift
    | (step + 1) :: path =>
      refine Iff.trans ⟨?_, fun hmem => .inr ⟨step :: path, hmem, rfl⟩⟩ (h'.complete (step :: path))
      rintro (⟨path', hmem, ⟨⟩⟩ | ⟨path', hmem, hshift⟩)
      cases path' with
      | nil => cases hshift
      | cons step' path' =>
        cases hshift
        exact hmem

theorem pairingsAlong_append (root : Declaration) (ends : List Nat → Option TypeNode)
    (paths paths' : List (List Nat)) :
    pairingsAlong root ends (paths ++ paths') =
      pairingsAlong root ends paths ++ pairingsAlong root ends paths' :=
  List.flatMap_append

theorem pairingsAlong_cons (root : Declaration) (node : TypeNode) (nodes : List TypeNode)
    (paths paths' : List (List Nat)) :
    pairingsAlong root (followFrom (node :: nodes)) (paths.map (List.cons 0) ++ paths'.map shift) =
      pairingsAlong root node.follow paths ++ pairingsAlong root (followFrom nodes) paths' := by
  rw [pairingsAlong_append, pairingsAlong, List.flatMap_map, pairingsAlong, List.flatMap_map]
  simp only [followFrom_shift]
  rfl

theorem Walk.pairingsAlong_follow {root : Declaration} {node : TypeNode} {paths : List (List Nat)}
    (h : Walk (followFrom node.supertypes) paths) :
    pairingsAlong root node.follow paths = pairingsAlong root (followFrom node.supertypes) paths := by
  refine List.flatMap_congr fun path hmem => ?_
  cases path with
  | nil => exact absurd hmem h.nil_not_mem
  | cons step path => rfl

/-! ## The walk of a hierarchy -/

theorem pairingsOfAll_append (root : Declaration) (nodes nodes' : List TypeNode) :
    pairingsOfAll root (nodes ++ nodes') = pairingsOfAll root nodes ++ pairingsOfAll root nodes' := by
  induction nodes with
  | nil => rfl
  | cons node rest ih => rw [List.cons_append, pairingsOfAll, pairingsOfAll, ih, List.append_assoc]

theorem pairings_eq (root : Declaration) (node : TypeNode) :
    pairings root node =
      pairingsWith root node.declaration ++ pairingsOfAll root node.supertypes := by
  obtain ⟨id, declaration, superClasses, superInterfaces⟩ := node
  rw [pairings, supertypes, pairingsOfAll_append, List.append_assoc]

/-- The walk whose ends give some pairings of `root`. -/
def WalksTo (root : Declaration) (ends : List Nat → Option TypeNode) (found : List MemberPairing) :
    Prop :=
  ∃ paths, Walk ends paths ∧ found = pairingsAlong root ends paths

theorem walksTo_pairingsOfAll {root : Declaration} {nodes : List TypeNode}
    (h : ∀ node ∈ nodes, WalksTo root node.follow (pairings root node)) :
    WalksTo root (followFrom nodes) (pairingsOfAll root nodes) := by
  induction nodes with
  | nil => exact ⟨[], .nil, rfl⟩
  | cons node rest ih =>
    obtain ⟨paths, hwalk, hpairings⟩ := h node List.mem_cons_self
    obtain ⟨paths', hwalk', hpairings'⟩ :=
      ih fun other hother => h other (List.mem_cons_of_mem _ hother)
    refine ⟨_, hwalk.cons hwalk', ?_⟩
    rw [pairingsOfAll, hpairings, hpairings', pairingsAlong_cons]

/-- The pairings of a node are those along all paths from it. -/
theorem walksTo_pairings (root : Declaration) (node : TypeNode) :
    WalksTo root node.follow (pairings root node) := by
  obtain ⟨paths, hwalk, hpairings⟩ := walksTo_pairingsOfAll fun super _ => walksTo_pairings root super
  refine ⟨[] :: paths, hwalk.follow, ?_⟩
  rw [pairings_eq, hpairings, ← hwalk.pairingsAlong_follow]
  simp [pairingsAlong, follow]
termination_by sizeOf node
decreasing_by exact sizeOf_lt_of_mem_supertypes (by assumption)

/-- The pairings of a root are those with the ends of all paths of at least one step, in depth-first
    order. -/
theorem classify_eq_flatMap (root : TypeNode) :
    ∃ paths : List (List Nat), paths.Pairwise (· < ·) ∧
      (∀ path, path ∈ paths ↔ path ≠ [] ∧ (root.follow path).isSome) ∧
      root.classify = paths.flatMap fun path =>
        (root.follow path).toList.flatMap fun ancestor =>
          pairingsWith root.declaration ancestor.declaration := by
  obtain ⟨paths, hwalk, hpairings⟩ :=
    walksTo_pairingsOfAll fun super (_ : super ∈ root.supertypes) =>
      walksTo_pairings root.declaration super
  refine ⟨paths, hwalk.sorted, ?_, ?_⟩
  · intro path
    rw [hwalk.complete]
    cases path with
    | nil => simp [followFrom]
    | cons step path => rw [follow_cons, and_iff_right (List.cons_ne_nil _ _)]
  · rw [classify, hpairings, ← hwalk.pairingsAlong_follow]
    rfl

/-- **Classification enumerates paths.** What a root is classified to falls into one group for each path
    of at least one step that leads somewhere, in depth-first order. A group holds one pairing for each
    member of the path's end that has a namesake in the root, in the order of these members. -/
theorem classify_along_paths (root : TypeNode) :
    ∃ (paths : List (List Nat)) (groups : List (List MemberPairing)),
      paths.Pairwise (· < ·) ∧
      (∀ path, path ∈ paths ↔ path ≠ [] ∧ (root.follow path).isSome) ∧
      root.classify = groups.flatten ∧
      List.Forall₂ (fun path group => ∃ ancestor, root.follow path = some ancestor ∧
        List.Forall₂ (Pairs root.declaration ancestor.declaration)
          (sharedMembers root.declaration ancestor.declaration) group) paths groups := by
  obtain ⟨paths, hsorted, hcomplete, hclassify⟩ := classify_eq_flatMap root
  refine ⟨paths, _, hsorted, hcomplete, hclassify.trans List.flatMap_def, ?_⟩
  refine List.forall₂_map_right_iff.mpr (List.forall₂_same.mpr ?_)
  intro path hmem
  obtain ⟨ancestor, hancestor⟩ := Option.isSome_iff_exists.mp ((hcomplete path).mp hmem).2
  refine ⟨ancestor, hancestor, ?_⟩
  rw [hancestor]
  simpa using pairingsWith_pairs root.declaration ancestor.declaration

end TypeNode
end Lineage
