import Lineage.Classification
import Lineage.Proofs.Hierarchy.Steps
import Mathlib.Data.List.Forall2

set_option autoImplicit false

/-! # Resolution without memory

What a declaration resolves to when nothing is remembered: every reference is looked up anew, every
supertype is resolved again wherever it is met, and a cycle shows when a key comes back on the chain
of keys from the root down to it.

`Answers` are the answers of services that depend on nothing but the question. `resolveAlong` resolves
by plain recursion along the heads of the declarations, nesting at most a given number of calls. -/

namespace Lineage

/-- The answers of services to every question. -/
structure Answers where
  resolveDefinitions : String → Position → Except ServiceFailure (List Location)
  findDeclaration : String → Range → Except ServiceFailure (Option Declaration)

/-- The services give these answers, in whatever state they are. -/
structure Services.AnswersWith {σ : Type} (services : Services σ) (answers : Answers) : Prop where
  resolveDefinitions : ∀ uri position world,
    (exec (services.resolveDefinitions uri position) world).1 =
      answers.resolveDefinitions uri position
  findDeclaration : ∀ uri range world,
    (exec (services.findDeclaration uri range) world).1 = answers.findDeclaration uri range

namespace Answers

/-- The class and interface declarations that the reference at a position refers to. -/
def definitionsAt (answers : Answers) (uri : String) (position : Position) :
    Except ServiceFailure (List Declaration) := do
  let locations ← answers.resolveDefinitions uri position
  let found ← locations.mapM fun location => answers.findDeclaration location.uri location.range
  return (found.filterMap id).filter fun declaration => declaration.kind.isType

/-- A lookup as a part of a resolution. -/
def lookup (answers : Answers) (uri : String) (position : Position) :
    Except Halt (List Declaration) :=
  (answers.definitionsAt uri position).mapError fun failure => .failed (.service failure)

/-- All declarations that the references at some positions refer to. -/
def targets (answers : Answers) (uri : String) (positions : List Position) :
    Except Halt (List Declaration) :=
  (positions.mapM (answers.lookup uri)).map List.flatten

/-- Resolves everything that the references at some positions refer to: all of them are looked up before
    the first target is resolved. -/
def resolveReferences (answers : Answers) (resolve : Declaration → Except Halt TypeNode)
    (uri : String) (positions : List Position) : Except Halt (List TypeNode) := do
  let targets ← answers.targets uri positions
  targets.mapM resolve

/-- Resolves a declaration whose resolution was asked for along a chain of keys, from the root down.
    Nodes are not told apart here, so they all have the same id. -/
def resolveAlong (answers : Answers) :
    (depth : Nat) → (chain : List DeclarationKey) → Declaration → Except Halt TypeNode
  | 0, _, _ => throw .exhausted
  | depth + 1, chain, declaration => do
    match declaration.typeKind with
    | .error error => throw (.failed error)
    | .ok kind =>
      let key := declaration.key
      if key ∈ chain then
        throw (.failed (.cyclic (chain.dropWhile (· ≠ key) ++ [key])))
      else
        match declaration.references? kind with
        | none => throw .overflow
        | some references =>
          let resolve := resolveAlong answers depth (chain ++ [key])
          let superClasses ←
            answers.resolveReferences resolve declaration.uri references.superClasses
          let superInterfaces ←
            answers.resolveReferences resolve declaration.uri references.superInterfaces
          return ⟨0, declaration, superClasses, superInterfaces⟩

/-- The pairings of a root declaration, or why there are none. -/
def outcome (answers : Answers) (depth : Nat) (root : Declaration) :
    Except Halt (List MemberPairing) :=
  (answers.resolveAlong depth [] root).map TypeNode.classify

theorem definitionsAt_of_ok {answers : Answers} {uri : String} {position : Position}
    {locations : List Location} (h : answers.resolveDefinitions uri position = .ok locations) :
    answers.definitionsAt uri position =
      (locations.mapM fun location =>
        answers.findDeclaration location.uri location.range).map fun found =>
          (found.filterMap id).filter fun declaration => declaration.kind.isType := by
  rw [definitionsAt, h]
  rfl

/-! ## Lists of resolutions -/

section Lists

variable {α β ε : Type}

theorem mapM_cons (f : α → Except ε β) (a : α) (as : List α) :
    (a :: as).mapM f =
      match f a with
      | .error e => .error e
      | .ok b =>
        match as.mapM f with
        | .error e => .error e
        | .ok bs => .ok (b :: bs) := by
  rw [List.mapM_cons]
  cases f a with
  | error e => rfl
  | ok b => cases as.mapM f <;> rfl

/-- A list of resolutions that succeeds is a list of successes. -/
theorem forall₂_of_mapM {f : α → Except ε β} {as : List α} {bs : List β}
    (h : as.mapM f = .ok bs) : List.Forall₂ (fun a b => f a = .ok b) as bs := by
  induction as generalizing bs with
  | nil =>
    cases h
    exact .nil
  | cons a as ih =>
    rw [mapM_cons] at h
    cases hfirst : f a with
    | error e => rw [hfirst] at h; cases h
    | ok b =>
      rw [hfirst] at h
      cases hrest : as.mapM f with
      | error e => rw [hrest] at h; cases h
      | ok bs' =>
        rw [hrest] at h
        cases h
        exact .cons hfirst (ih hrest)

/-- Lists that are related have related members. -/
theorem exists_of_forall₂ {R : α → β → Prop} {as : List α} {bs : List β}
    (h : List.Forall₂ R as bs) {a : α} (hmem : a ∈ as) : ∃ b ∈ bs, R a b := by
  induction h with
  | nil => cases hmem
  | cons hfirst _ ih =>
    rcases List.mem_cons.mp hmem with rfl | hrest
    · exact ⟨_, List.mem_cons_self, hfirst⟩
    · obtain ⟨b, hb, hrel⟩ := ih hrest
      exact ⟨b, List.mem_cons_of_mem _ hb, hrel⟩

/-- A list of successes is a list of resolutions that succeeds. -/
theorem mapM_of_forall₂ {f : α → Except ε β} {as : List α} {bs : List β}
    (h : List.Forall₂ (fun a b => f a = .ok b) as bs) : as.mapM f = .ok bs := by
  induction h with
  | nil => rfl
  | cons hfirst _ ih =>
    rw [mapM_cons, hfirst]
    dsimp only
    rw [ih]

/-- A list with a resolution that fails is a list of resolutions that fails. -/
theorem mapM_error_of_mem {f : α → Except ε β} {as : List α} {a : α} {e : ε} (hmem : a ∈ as)
    (h : f a = .error e) : ∃ e', as.mapM f = .error e' := by
  cases hall : as.mapM f with
  | error e' => exact ⟨e', rfl⟩
  | ok bs =>
    obtain ⟨b, -, hok⟩ := exists_of_forall₂ (forall₂_of_mapM hall) hmem
    rw [h] at hok
    cases hok

/-- A list of resolutions that fails does so with the failure of one of them. -/
theorem exists_of_mapM_error {f : α → Except ε β} {as : List α} {e : ε}
    (h : as.mapM f = .error e) : ∃ a ∈ as, f a = .error e := by
  induction as with
  | nil => cases h
  | cons a as ih =>
    rw [mapM_cons] at h
    cases hfirst : f a with
    | error e =>
      rw [hfirst] at h
      cases h
      exact ⟨a, List.mem_cons_self, hfirst⟩
    | ok b =>
      rw [hfirst] at h
      cases hrest : as.mapM f with
      | ok bs => rw [hrest] at h; cases h
      | error e =>
        rw [hrest] at h
        cases h
        obtain ⟨a', hmem, hfail⟩ := ih hrest
        exact ⟨a', List.mem_cons_of_mem _ hmem, hfail⟩

/-- A list of answers consists of answers to the questions. -/
theorem exists_of_mem_mapM {f : α → Except ε β} {as : List α} {bs : List β}
    (h : as.mapM f = .ok bs) {b : β} (hb : b ∈ bs) : ∃ a ∈ as, f a = .ok b :=
  exists_of_forall₂ (forall₂_of_mapM h).flip hb

end Lists

/-- Targets of references are types that were found. -/
theorem exists_of_mem_targets {answers : Answers} {uri : String} {positions : List Position}
    {targets : List Declaration} (h : answers.targets uri positions = .ok targets)
    {target : Declaration} (hmem : target ∈ targets) :
    ∃ location : Location, answers.findDeclaration location.uri location.range = .ok (some target) ∧
      target.kind.isType = true := by
  rw [Answers.targets] at h
  cases hfound : positions.mapM (answers.lookup uri) with
  | error halt => rw [hfound] at h; cases h
  | ok found =>
    rw [hfound] at h
    cases h
    obtain ⟨group, hgroup, hmem⟩ := List.mem_flatten.mp hmem
    obtain ⟨position, -, hlookup⟩ := exists_of_mem_mapM hfound hgroup
    cases hlocations : answers.resolveDefinitions uri position with
    | error failure =>
      rw [lookup, definitionsAt, hlocations] at hlookup
      cases hlookup
    | ok locations =>
      rw [lookup, definitionsAt_of_ok hlocations] at hlookup
      cases hanswers : locations.mapM fun location =>
          answers.findDeclaration location.uri location.range with
      | error failure => rw [hanswers] at hlookup; cases hlookup
      | ok declarations =>
        rw [hanswers] at hlookup
        cases hlookup
        obtain ⟨hmem, htype⟩ := List.mem_filter.mp hmem
        obtain ⟨answer, hanswer, hsome⟩ := List.mem_filterMap.mp hmem
        obtain ⟨location, -, hfind⟩ := exists_of_mem_mapM hanswers hanswer
        exact ⟨location, hsome ▸ hfind, htype⟩

/-! ## One step of a resolution -/

variable {answers : Answers} {depth : Nat} {chain : List DeclarationKey} {declaration : Declaration}
  {uri : String} {positions : List Position} {resolve : Declaration → Except Halt TypeNode}

theorem resolveReferences_eq (answers : Answers) (resolve : Declaration → Except Halt TypeNode)
    (uri : String) (positions : List Position) :
    answers.resolveReferences resolve uri positions =
      match answers.targets uri positions with
      | .error halt => .error halt
      | .ok targets => targets.mapM resolve := by
  rw [resolveReferences]
  cases answers.targets uri positions <;> rfl

theorem resolveAlong_succ (answers : Answers) (depth : Nat) (chain : List DeclarationKey)
    (declaration : Declaration) :
    answers.resolveAlong (depth + 1) chain declaration =
      match declaration.typeKind with
      | .error error => .error (.failed error)
      | .ok kind =>
        if declaration.key ∈ chain then
          .error (.failed (.cyclic (chain.dropWhile (· ≠ declaration.key) ++ [declaration.key])))
        else
          match declaration.references? kind with
          | none => .error .overflow
          | some references =>
            match answers.resolveReferences
                (answers.resolveAlong depth (chain ++ [declaration.key])) declaration.uri
                references.superClasses with
            | .error halt => .error halt
            | .ok superClasses =>
              match answers.resolveReferences
                  (answers.resolveAlong depth (chain ++ [declaration.key])) declaration.uri
                  references.superInterfaces with
              | .error halt => .error halt
              | .ok superInterfaces => .ok ⟨0, declaration, superClasses, superInterfaces⟩ := by
  rw [resolveAlong]
  cases declaration.typeKind with
  | error error => rfl
  | ok kind =>
    dsimp only
    split
    · rfl
    · cases declaration.references? kind with
      | none => rfl
      | some references =>
        dsimp only
        cases answers.resolveReferences (answers.resolveAlong depth (chain ++ [declaration.key]))
          declaration.uri references.superClasses with
        | error halt => rfl
        | ok superClasses =>
          cases answers.resolveReferences
            (answers.resolveAlong depth (chain ++ [declaration.key])) declaration.uri
            references.superInterfaces <;> rfl

theorem resolveReferences_ok {nodes : List TypeNode}
    (h : answers.resolveReferences resolve uri positions = .ok nodes) :
    ∃ targets, answers.targets uri positions = .ok targets ∧
      List.Forall₂ (fun target node => resolve target = .ok node) targets nodes := by
  rw [resolveReferences_eq] at h
  cases htargets : answers.targets uri positions with
  | error halt => rw [htargets] at h; cases h
  | ok targets =>
    rw [htargets] at h
    exact ⟨targets, rfl, forall₂_of_mapM h⟩

theorem resolveReferences_error {halt : Halt}
    (h : answers.resolveReferences resolve uri positions = .error halt) :
    answers.targets uri positions = .error halt ∨
      ∃ targets, answers.targets uri positions = .ok targets ∧
        ∃ target ∈ targets, resolve target = .error halt := by
  rw [resolveReferences_eq] at h
  cases htargets : answers.targets uri positions with
  | error other =>
    rw [htargets] at h
    cases h
    exact .inl rfl
  | ok targets =>
    rw [htargets] at h
    exact .inr ⟨targets, rfl, exists_of_mapM_error h⟩

/-- The head of a declaration refers to these classes and these interfaces. -/
def Refers (answers : Answers) (declaration : Declaration) (classes interfaces : List Declaration) :
    Prop :=
  ∃ kind references, declaration.typeKind = .ok kind ∧
    declaration.references? kind = some references ∧
    answers.targets declaration.uri references.superClasses = .ok classes ∧
    answers.targets declaration.uri references.superInterfaces = .ok interfaces

/-- A node has the declaration it was resolved from, and as supertypes the nodes of what that refers
    to. -/
theorem resolveAlong_ok {node : TypeNode}
    (h : answers.resolveAlong (depth + 1) chain declaration = .ok node) :
    node.declaration = declaration ∧ declaration.key ∉ chain ∧
      ∃ classes interfaces, answers.Refers declaration classes interfaces ∧
        List.Forall₂ (fun target super =>
          answers.resolveAlong depth (chain ++ [declaration.key]) target = .ok super)
          classes node.superClasses ∧
        List.Forall₂ (fun target super =>
          answers.resolveAlong depth (chain ++ [declaration.key]) target = .ok super)
          interfaces node.superInterfaces := by
  rw [resolveAlong_succ] at h
  cases hkind : declaration.typeKind with
  | error error => rw [hkind] at h; cases h
  | ok kind =>
    rw [hkind] at h
    dsimp only at h
    split at h
    · cases h
    · next hmem =>
      cases hreferences : declaration.references? kind with
      | none => rw [hreferences] at h; cases h
      | some references =>
        rw [hreferences] at h
        dsimp only at h
        split at h
        · cases h
        · next superClasses hclass =>
          split at h
          · cases h
          · next superInterfaces hinterface =>
            cases h
            obtain ⟨classes, hclasses, hsuper⟩ := resolveReferences_ok hclass
            obtain ⟨interfaces, hinterfaces, hsuper'⟩ := resolveReferences_ok hinterface
            exact ⟨rfl, hmem, classes, interfaces,
              ⟨kind, references, hkind, hreferences, hclasses, hinterfaces⟩, hsuper, hsuper'⟩

/-- A resolution that succeeds has room for its first call. -/
theorem exists_succ_of_resolveAlong {node : TypeNode}
    (h : answers.resolveAlong depth chain declaration = .ok node) : ∃ below, depth = below + 1 := by
  cases depth with
  | zero => cases h
  | succ depth => exact ⟨depth, rfl⟩

/-- A resolution fails for a reason of its own or with the failure of a supertype. -/
theorem resolveAlong_error {halt : Halt}
    (h : answers.resolveAlong (depth + 1) chain declaration = .error halt) :
    (∃ error, declaration.typeKind = .error error ∧ halt = .failed error) ∨
    (declaration.key ∈ chain ∧ halt = .failed
      (.cyclic (chain.dropWhile (· ≠ declaration.key) ++ [declaration.key]))) ∨
    ∃ kind, declaration.typeKind = .ok kind ∧ declaration.key ∉ chain ∧
      (declaration.references? kind = none ∨
        ∃ references, declaration.references? kind = some references ∧
          ∃ positions ∈ [references.superClasses, references.superInterfaces],
            answers.targets declaration.uri positions = .error halt ∨
            ∃ targets, answers.targets declaration.uri positions = .ok targets ∧
              ∃ target ∈ targets,
                answers.resolveAlong depth (chain ++ [declaration.key]) target = .error halt) := by
  rw [resolveAlong_succ] at h
  cases hkind : declaration.typeKind with
  | error error =>
    rw [hkind] at h
    cases h
    exact .inl ⟨error, rfl, rfl⟩
  | ok kind =>
    rw [hkind] at h
    dsimp only at h
    split at h
    · next hmem =>
      cases h
      exact .inr (.inl ⟨hmem, rfl⟩)
    · next hmem =>
      refine .inr (.inr ⟨kind, rfl, hmem, ?_⟩)
      cases hreferences : declaration.references? kind with
      | none => exact .inl rfl
      | some references =>
        rw [hreferences] at h
        dsimp only at h
        refine .inr ⟨references, rfl, ?_⟩
        split at h
        · next hclass =>
          cases h
          exact ⟨_, by simp, resolveReferences_error hclass⟩
        · split at h
          · next hinterface =>
            cases h
            exact ⟨references.superInterfaces, by simp, resolveReferences_error hinterface⟩
          · cases h

end Answers
end Lineage
