import Lineage.Proofs.Hierarchy.Agreement
import Lineage.Proofs.Workspace.Listing

set_option autoImplicit false

/-! # Supertypes in a workspace

A workspace answers every question from memory: its answers depend on the question alone and never fail.
So each declaration has a list of direct supertypes, `Workspace.supertypes`, and a resolution over the
workspace is a walk along these lists. -/

namespace Lineage

/-- A declaration without its members. -/
def Declaration.head (declaration : Declaration) : Declaration :=
  { declaration with members := [] }

namespace Workspace

variable {workspace : Workspace}

/-! ## Answers -/

/-- The answers of a workspace. -/
def answers (workspace : Workspace) : Answers where
  resolveDefinitions uri position := .ok (workspace.definitionsAt uri position)
  findDeclaration uri range :=
    .ok ((workspace.declarations uri).find? fun declaration => declaration.range = range)

theorem answersWith (workspace : Workspace) : workspace.services.AnswersWith workspace.answers :=
  ⟨fun _ _ _ => rfl, fun _ _ _ => rfl⟩

theorem lists_of_findDeclaration {uri : String} {range : Range} {declaration : Declaration}
    (h : workspace.answers.findDeclaration uri range = .ok (some declaration)) :
    workspace.Lists declaration :=
  ⟨uri, List.mem_of_find?_eq_some (Except.ok.inj h)⟩

/-! ## Targets of references -/

/-- The declarations that the reference at a position refers to, as a first lookup finds them. -/
def targetsAt (workspace : Workspace) (uri : String) (position : Position) : List Declaration :=
  match (exec (Lookup.definitionsAt workspace.services uri position) (Lookup.start .zero)).1 with
  | .ok targets => targets
  | .error _ => []

theorem mapM_ok {α β ε : Type} {f : α → Except ε β} {g : α → β} (h : ∀ a, f a = .ok (g a))
    (as : List α) : as.mapM f = .ok (as.map g) := by
  induction as with
  | nil => rfl
  | cons a as ih =>
    rw [List.mapM_cons, h, ih]
    rfl

theorem definitionsAt_answers (workspace : Workspace) (uri : String) (position : Position) :
    workspace.answers.definitionsAt uri position = .ok (workspace.targetsAt uri position) := by
  have hfirst := (Lookup.definitionsAt_agrees workspace.answersWith uri position
    (Lookup.start .zero) (by rintro _ _ ⟨⟩)).1
  have hlocations : workspace.answers.resolveDefinitions uri position =
    .ok (workspace.definitionsAt uri position) := rfl
  have hfound : (workspace.definitionsAt uri position).mapM (fun location =>
      workspace.answers.findDeclaration location.uri location.range) = .ok _ :=
    mapM_ok (fun _ => rfl) _
  rw [targetsAt, hfirst, Answers.definitionsAt_of_ok hlocations, hfound]
  rfl

theorem targets_answers (workspace : Workspace) (uri : String) (positions : List Position) :
    workspace.answers.targets uri positions =
      .ok (positions.flatMap (workspace.targetsAt uri)) := by
  have hlookup : ∀ position, workspace.answers.lookup uri position =
      .ok (workspace.targetsAt uri position) := by
    intro position
    rw [Answers.lookup, definitionsAt_answers]
    rfl
  rw [Answers.targets, mapM_ok hlookup, List.flatMap_def]
  rfl

/-! ## Direct supertypes -/

/-- The declarations that the head of a declaration refers to: one for each reference and each of its
    targets, super classes first. -/
def supertypes (workspace : Workspace) (declaration : Declaration) : List Declaration :=
  match declaration.typeKind with
  | .error _ => []
  | .ok kind =>
    match declaration.references? kind with
    | none => []
    | some references =>
      (references.superClasses ++ references.superInterfaces).flatMap
        (workspace.targetsAt declaration.uri)

theorem lists_of_mem_supertypes {declaration super : Declaration}
    (h : super ∈ workspace.supertypes declaration) : workspace.Lists super := by
  rw [supertypes] at h
  split at h
  · cases h
  · split at h
    · cases h
    · obtain ⟨position, -, hmem⟩ := List.mem_flatMap.mp h
      have htargets := workspace.targets_answers declaration.uri [position]
      rw [List.flatMap_singleton] at htargets
      obtain ⟨location, hfind, -⟩ := Answers.exists_of_mem_targets htargets hmem
      exact lists_of_findDeclaration hfind

/-- What a declaration refers to are its supertypes. -/
theorem append_eq_supertypes {declaration : Declaration} {classes interfaces : List Declaration}
    (h : workspace.answers.Refers declaration classes interfaces) :
    classes ++ interfaces = workspace.supertypes declaration := by
  obtain ⟨kind, references, hkind, hreferences, hclasses, hinterfaces⟩ := h
  rw [targets_answers] at hclasses hinterfaces
  rw [supertypes, hkind]
  dsimp only
  rw [hreferences]
  dsimp only
  rw [List.flatMap_append, Except.ok.inj hclasses, Except.ok.inj hinterfaces]

/-- A declaration that resolves is off the chain, and the supertypes of its node are the nodes of its
    supertypes. -/
theorem resolveAlong_ok {depth : Nat} {chain : List DeclarationKey} {declaration : Declaration}
    {node : TypeNode} (h : workspace.answers.resolveAlong depth chain declaration = .ok node) :
    node.declaration = declaration ∧ declaration.key ∉ chain ∧
      ∃ below, List.Forall₂ (fun target super =>
        workspace.answers.resolveAlong below (chain ++ [declaration.key]) target = .ok super)
        (workspace.supertypes declaration) node.supertypes := by
  obtain ⟨below, rfl⟩ := Answers.exists_succ_of_resolveAlong h
  obtain ⟨hdeclaration, hmem, classes, interfaces, hrefers, hclasses, hinterfaces⟩ :=
    Answers.resolveAlong_ok h
  refine ⟨hdeclaration, hmem, below, ?_⟩
  rw [← append_eq_supertypes hrefers, TypeNode.supertypes]
  exact List.rel_append hclasses hinterfaces

/-- Every target of a reference is a supertype. -/
theorem mem_supertypes {declaration target : Declaration} {kind : TypeKind}
    {references : References} {positions : List Position} {targets : List Declaration}
    (hkind : declaration.typeKind = .ok kind)
    (hreferences : declaration.references? kind = some references)
    (hpositions : positions ∈ [references.superClasses, references.superInterfaces])
    (htargets : workspace.answers.targets declaration.uri positions = .ok targets)
    (hmem : target ∈ targets) : target ∈ workspace.supertypes declaration := by
  rw [targets_answers] at htargets
  cases htargets
  rw [supertypes, hkind]
  dsimp only
  rw [hreferences]
  dsimp only
  rw [List.flatMap_append]
  rcases List.mem_cons.mp hpositions with rfl | hpositions
  · exact List.mem_append_left _ hmem
  · rw [List.mem_singleton.mp hpositions] at hmem
    exact List.mem_append_right _ hmem

/-- Supertypes are read from the text and placed by the key. -/
theorem supertypes_congr {declaration other : Declaration} (hkey : declaration.key = other.key)
    (htext : declaration.text = other.text) :
    workspace.supertypes declaration = workspace.supertypes other := by
  have huri : declaration.uri = other.uri := congrArg DeclarationKey.uri hkey
  rw [supertypes, supertypes, Declaration.typeKind_congr hkey, huri]
  cases other.typeKind with
  | error error => rfl
  | ok kind =>
    dsimp only
    rw [Declaration.references?_congr hkey htext]

/-! ## Consistency -/

theorem Built.consistent (hw : workspace.Built) {view : Declaration → Declaration}
    (hdetermined : ∀ {declaration other}, workspace.Lists declaration → workspace.Lists other →
      declaration.key = other.key → view declaration = view other)
    (hkey : ∀ declaration, (view declaration).key = declaration.key)
    (htext : ∀ declaration, (view declaration).text = declaration.text) :
    Consistent workspace.answers view workspace.Lists workspace.declarationKeys where
  answered hfind _ := lists_of_findDeclaration hfind
  listed hfind _ := key_mem_declarationKeys (lists_of_findDeclaration hfind)
  determined := hdetermined
  fits hlists _ := hw.references?_ne_none hlists _
  key_view := hkey
  text_view := htext

/-- The heads of listed declarations are determined by their keys. -/
theorem Built.consistent_head (hw : workspace.Built) :
    Consistent workspace.answers .head workspace.Lists workspace.declarationKeys := by
  refine hw.consistent ?_ (fun _ => rfl) (fun _ => rfl)
  intro declaration other h h' hkey
  have htext := hw.text_eq_of_key_eq h h' hkey
  obtain ⟨name, kind, uri, range, text, members⟩ := declaration
  obtain ⟨name', kind', uri', range', text', members'⟩ := other
  simp only [Declaration.key, DeclarationKey.mk.injEq] at hkey
  obtain ⟨rfl, rfl, rfl, rfl⟩ := hkey
  cases htext
  rfl

/-- Where all keys are different, the whole declarations are. -/
theorem Built.consistent_whole (hw : workspace.Built) (hnodup : workspace.declarationKeys.Nodup) :
    Consistent workspace.answers .whole workspace.Lists workspace.declarationKeys :=
  hw.consistent (hw.eq_of_key_eq hnodup) (fun _ => rfl) (fun _ => rfl)

end Workspace
end Lineage
