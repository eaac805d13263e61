import Lineage.Proofs.Hierarchy.Agreement

set_option autoImplicit false

/-! # Declarations that resolve

A node unfolds if it and all its supertypes have the supertypes that their declarations refer to.
Nothing is said about the order in which such a node was built, so it may come from a resolution that
others interrupt.

There is at most one such node for each key, as far as `view` shows (`Unfolds.alike`), and there is one
exactly if resolution without memory succeeds (`resolvable_iff_resolveAlong`). A resolvable declaration
refers only to others that are resolvable and rank below it, so no cycle leads through it. -/

namespace Lineage

variable {answers : Answers} {view : Declaration → Declaration} {known : Declaration → Prop}
  {keys : List DeclarationKey}

/-- What a declaration refers to is what the references in its head lead to. -/
theorem Answers.Refers.targets {declaration : Declaration} {classes interfaces : List Declaration}
    (h : answers.Refers declaration classes interfaces) {kind : TypeKind} {references : References}
    (hkind : declaration.typeKind = .ok kind)
    (hreferences : declaration.references? kind = some references) :
    answers.targets declaration.uri references.superClasses = .ok classes ∧
      answers.targets declaration.uri references.superInterfaces = .ok interfaces := by
  obtain ⟨kind', references', hkind', hreferences', hclasses, hinterfaces⟩ := h
  obtain rfl : kind = kind' := Except.ok.inj (hkind.symm.trans hkind')
  obtain rfl : references = references' := Option.some.inj (hreferences.symm.trans hreferences')
  exact ⟨hclasses, hinterfaces⟩

/-- A declaration refers to the same ones at any time. -/
theorem Answers.Refers.unique {declaration : Declaration}
    {classes interfaces classes' interfaces' : List Declaration}
    (h : answers.Refers declaration classes interfaces)
    (h' : answers.Refers declaration classes' interfaces') :
    classes = classes' ∧ interfaces = interfaces' := by
  obtain ⟨kind, references, hkind, hreferences, hclasses', hinterfaces'⟩ := h'
  obtain ⟨hclasses, hinterfaces⟩ := h.targets hkind hreferences
  exact ⟨Except.ok.inj (hclasses.symm.trans hclasses'),
    Except.ok.inj (hinterfaces.symm.trans hinterfaces')⟩

/-! ## Nodes that unfold -/

/-- A node that has, all the way up, the supertypes that declarations refer to. -/
inductive Unfolds (answers : Answers) (view : Declaration → Declaration)
    (known : Declaration → Prop) : TypeNode → Prop where
  | intro {node : TypeNode} (faithful : Faithful answers view known node)
      (supertypes : ∀ super ∈ node.supertypes, Unfolds answers view known super) :
      Unfolds answers view known node

namespace Unfolds

theorem faithful {node : TypeNode} (h : Unfolds answers view known node) :
    Faithful answers view known node := by
  obtain ⟨hfaithful, -⟩ := h
  exact hfaithful

theorem supertypes {node : TypeNode} (h : Unfolds answers view known node) :
    ∀ super ∈ node.supertypes, Unfolds answers view known super := by
  obtain ⟨-, hsuper⟩ := h
  exact hsuper

/-- Supertypes that look alike one by one look alike as lists, if their declarations do. -/
theorem map_strip_eq {supers others : List TypeNode}
    (hview : supers.map (fun super => view super.declaration) =
      others.map fun other => view other.declaration)
    (halike : ∀ super ∈ supers, ∀ other ∈ others,
      view super.declaration = view other.declaration → super.strip view = other.strip view) :
    supers.map (TypeNode.strip view) = others.map (TypeNode.strip view) := by
  induction supers generalizing others with
  | nil =>
    obtain rfl : others = [] := by simpa using hview.symm
    rfl
  | cons super supers ih =>
    cases others with
    | nil => simp at hview
    | cons other others =>
      simp only [List.map_cons, List.cons.injEq] at hview ⊢
      refine ⟨halike super List.mem_cons_self other List.mem_cons_self hview.1, ih hview.2 ?_⟩
      exact fun super' hsuper other' hother =>
        halike super' (List.mem_cons_of_mem _ hsuper) other' (List.mem_cons_of_mem _ hother)

/-- There is but one such node for a key. -/
theorem alike (hcon : Consistent answers view known keys) {node other : TypeNode}
    (h : Unfolds answers view known node) (h' : Unfolds answers view known other)
    (hkey : node.key = other.key) : node.strip view = other.strip view := by
  induction h generalizing other with
  | intro hfaithful _ ih =>
    obtain ⟨classes, interfaces, hrefers, hclasses, hinterfaces⟩ := hfaithful.refers
    obtain ⟨classes', interfaces', hrefers', hclasses', hinterfaces'⟩ := h'.faithful.refers
    have hview := hcon.determined hfaithful.known h'.faithful.known hkey
    obtain ⟨rfl, rfl⟩ := (hcon.refers_of_view_eq hview hrefers).unique hrefers'
    rw [TypeNode.strip_eq, TypeNode.strip_eq view other, hview]
    congr 1
    · refine map_strip_eq (hclasses.trans hclasses'.symm) fun super hsuper other' hother hsame => ?_
      exact ih super (List.mem_append_left _ hsuper)
        (h'.supertypes other' (List.mem_append_left _ hother)) (hcon.key_eq_of_view_eq hsame)
    · refine map_strip_eq (hinterfaces.trans hinterfaces'.symm)
        fun super hsuper other' hother hsame => ?_
      exact ih super (List.mem_append_right _ hsuper)
        (h'.supertypes other' (List.mem_append_right _ hother)) (hcon.key_eq_of_view_eq hsame)

theorem coherent (hcon : Consistent answers view known keys) :
    Coherent answers view known (Unfolds answers view known) where
  faithful := faithful
  supertypes := supertypes
  alike h h' := h.alike hcon h'

/-- Nodes of some targets have declarations that look like the targets. -/
theorem map_view_eq (hcon : Consistent answers view known keys) {targets : List Declaration}
    {supers : List TypeNode} (hknown : ∀ target ∈ targets, known target)
    (h : List.Forall₂ (fun target super => super.key = target.key ∧ Unfolds answers view known super)
      targets supers) :
    supers.map (fun super => view super.declaration) = targets.map view := by
  induction h with
  | nil => rfl
  | @cons target super _ _ hfirst _ ih =>
    obtain ⟨hkey, hsuper⟩ := hfirst
    rw [List.map_cons, List.map_cons,
      hcon.determined hsuper.faithful.known (hknown target List.mem_cons_self) hkey,
      ih fun other hother => hknown other (List.mem_cons_of_mem _ hother)]

/-- A node unfolds if its supertypes are nodes of what its declaration refers to. -/
theorem of_refers (hcon : Consistent answers view known keys) {node : TypeNode}
    {classes interfaces : List Declaration} (hknown : known node.declaration)
    (hrefers : answers.Refers node.declaration classes interfaces)
    (hclasses : List.Forall₂ (fun target super =>
      super.key = target.key ∧ Unfolds answers view known super) classes node.superClasses)
    (hinterfaces : List.Forall₂ (fun target super =>
      super.key = target.key ∧ Unfolds answers view known super) interfaces node.superInterfaces) :
    Unfolds answers view known node := by
  obtain ⟨kind, references, hkind, hreferences, htargets, htargets'⟩ := id hrefers
  refine ⟨⟨hknown, classes, interfaces, hrefers,
    map_view_eq hcon (fun _ hmem => (hcon.known_of_mem_targets htargets hmem).1) hclasses,
    map_view_eq hcon (fun _ hmem => (hcon.known_of_mem_targets htargets' hmem).1) hinterfaces⟩, ?_⟩
  intro super hsuper
  rcases List.mem_append.mp hsuper with hmem | hmem
  · obtain ⟨_, -, -, hunfolds⟩ := Answers.exists_of_forall₂ hclasses.flip hmem
    exact hunfolds
  · obtain ⟨_, -, -, hunfolds⟩ := Answers.exists_of_forall₂ hinterfaces.flip hmem
    exact hunfolds

/-- What resolution without memory comes to unfolds. -/
theorem of_resolveAlong (hcon : Consistent answers view known keys) {depth : Nat}
    {chain : List DeclarationKey} {declaration : Declaration} {node : TypeNode}
    (hknown : known declaration) (h : answers.resolveAlong depth chain declaration = .ok node) :
    node.key = declaration.key ∧ Unfolds answers view known node := by
  induction depth generalizing chain declaration node with
  | zero => cases h
  | succ depth ih =>
    obtain ⟨rfl, -, classes, interfaces, hrefers, hclasses, hinterfaces⟩ := Answers.resolveAlong_ok h
    obtain ⟨kind, references, hkind, hreferences, htargets, htargets'⟩ := id hrefers
    have hsupers : ∀ {positions : List Position} {targets : List Declaration} {supers : List TypeNode},
        answers.targets node.declaration.uri positions = .ok targets →
        List.Forall₂ (fun target super => answers.resolveAlong depth
          (chain ++ [node.declaration.key]) target = .ok super) targets supers →
        List.Forall₂ (fun target super =>
          super.key = target.key ∧ Unfolds answers view known super) targets supers := by
      intro positions targets supers hfound hall
      have hknown' : ∀ target ∈ targets, known target :=
        fun _ hmem => (hcon.known_of_mem_targets hfound hmem).1
      exact ((List.forall₂_and_left _ _).mpr ⟨hknown', hall⟩).imp fun _ _ h => ih h.1 h.2
    exact ⟨rfl, of_refers hcon hknown hrefers (hsupers htargets hclasses)
      (hsupers htargets' hinterfaces)⟩

end Unfolds

/-! ## Resolvable keys -/

/-- The declarations under a key resolve. -/
def Resolvable (answers : Answers) (view : Declaration → Declaration) (known : Declaration → Prop)
    (key : DeclarationKey) : Prop :=
  ∃ node, Unfolds answers view known node ∧ node.key = key

/-- The node of a key has that of another among its supertypes, all the way up. -/
def Outranks (answers : Answers) (view : Declaration → Declaration) (known : Declaration → Prop)
    (upper lower : DeclarationKey) : Prop :=
  ∃ node super, Unfolds answers view known node ∧ Unfolds answers view known super ∧
    node.key = upper ∧ super.key = lower ∧ sizeOf (super.strip view) < sizeOf (node.strip view)

namespace Outranks

variable {upper middle lower : DeclarationKey}

theorem resolvable (h : Outranks answers view known upper lower) :
    Resolvable answers view known lower := by
  obtain ⟨-, super, -, hsuper, -, hkey, -⟩ := h
  exact ⟨super, hsuper, hkey⟩

theorem trans (hcon : Consistent answers view known keys)
    (h : Outranks answers view known upper middle)
    (h' : Outranks answers view known middle lower) : Outranks answers view known upper lower := by
  obtain ⟨node, between, hnode, hbetween, hupper, hmiddle, hlt⟩ := h
  obtain ⟨between', super, hbetween', hsuper, hmiddle', hlower, hlt'⟩ := h'
  refine ⟨node, super, hnode, hsuper, hupper, hlower, Nat.lt_trans hlt' ?_⟩
  rwa [hbetween'.alike hcon hbetween (hmiddle'.trans hmiddle.symm)]

/-- Nothing is above itself. -/
theorem irrefl (hcon : Consistent answers view known keys) :
    ¬ Outranks answers view known upper upper := by
  rintro ⟨node, super, hnode, hsuper, hupper, hlower, hlt⟩
  rw [hsuper.alike hcon hnode (hlower.trans hupper.symm)] at hlt
  exact Nat.lt_irrefl _ hlt

end Outranks

namespace Resolvable

variable {declaration : Declaration}

/-- What a resolvable declaration refers to, as its node shows. -/
theorem refers (hcon : Consistent answers view known keys) (hknown : known declaration)
    (h : Resolvable answers view known declaration.key) :
    ∃ classes interfaces, answers.Refers declaration classes interfaces ∧
      ∀ target ∈ classes ++ interfaces, Outranks answers view known declaration.key target.key := by
  obtain ⟨node, hnode, hkey⟩ := h
  obtain ⟨classes, interfaces, hrefers, hclasses, hinterfaces⟩ := hnode.faithful.refers
  have hview := hcon.determined hnode.faithful.known hknown hkey
  refine ⟨classes, interfaces, hcon.refers_of_view_eq hview hrefers, fun target htarget => ?_⟩
  have hsupers : node.supertypes.map (fun super => view super.declaration) =
      (classes ++ interfaces).map view := by
    rw [TypeNode.supertypes, List.map_append, List.map_append, hclasses, hinterfaces]
  have hmem : view target ∈ node.supertypes.map fun super => view super.declaration := by
    rw [hsupers]
    exact List.mem_map_of_mem htarget
  obtain ⟨super, hsuper, hsame⟩ := List.mem_map.mp hmem
  exact ⟨node, super, hnode, hnode.supertypes super hsuper, hkey, hcon.key_eq_of_view_eq hsame,
    sizeOf_strip_lt view hsuper⟩

/-- The references of a resolvable declaration can be looked up, and what they refer to ranks below
    it. -/
theorem targets (hcon : Consistent answers view known keys) (hknown : known declaration)
    (h : Resolvable answers view known declaration.key) {kind : TypeKind} {references : References}
    (hkind : declaration.typeKind = .ok kind)
    (hreferences : declaration.references? kind = some references) {positions : List Position}
    (hpositions : positions ∈ [references.superClasses, references.superInterfaces]) :
    ∃ targets, answers.targets declaration.uri positions = .ok targets ∧
      ∀ target ∈ targets, Outranks answers view known declaration.key target.key := by
  obtain ⟨classes, interfaces, hrefers, houtranks⟩ := h.refers hcon hknown
  obtain ⟨hclasses, hinterfaces⟩ := hrefers.targets hkind hreferences
  simp only [List.mem_cons, List.not_mem_nil, or_false] at hpositions
  rcases hpositions with rfl | rfl
  · exact ⟨classes, hclasses, fun target htarget => houtranks target (List.mem_append_left _ htarget)⟩
  · exact ⟨interfaces, hinterfaces,
      fun target htarget => houtranks target (List.mem_append_right _ htarget)⟩

end Resolvable

/-- A node that unfolds is what resolution without memory comes to, as far as `view` shows. -/
theorem Unfolds.resolveAlong (hcon : Consistent answers view known keys) {node : TypeNode}
    (h : Unfolds answers view known node) {root : Declaration} (hknown : known root)
    (hkey : root.key ∈ keys) {depth : Nat} (hdepth : keys.length < depth)
    (heq : node.key = root.key) :
    ∃ found, answers.resolveAlong depth [] root = .ok found ∧ found.strip view = node.strip view :=
  resolveAlong_of_coherent hcon (coherent hcon) hknown hkey (Room.nil hdepth) h heq (by simp)

/-- **A declaration is resolvable exactly if resolution without memory succeeds.** -/
theorem resolvable_iff_resolveAlong (hcon : Consistent answers view known keys) {root : Declaration}
    (hknown : known root) (hkey : root.key ∈ keys) {depth : Nat} (hdepth : keys.length < depth) :
    Resolvable answers view known root.key ↔
      ∃ found, answers.resolveAlong depth [] root = .ok found := by
  constructor
  · rintro ⟨node, hnode, heq⟩
    obtain ⟨found, hfound, -⟩ := hnode.resolveAlong hcon hknown hkey hdepth heq
    exact ⟨found, hfound⟩
  · rintro ⟨found, hfound⟩
    obtain ⟨heq, hunfolds⟩ := Unfolds.of_resolveAlong hcon hknown hfound
    exact ⟨found, hunfolds, heq⟩

end Lineage
