import Lineage.Proofs.Workspace.Supertypes
import Mathlib.Data.List.Chain

set_option autoImplicit false

/-! # Cycles of supertypes

Over a workspace a resolution fails exactly when a cycle of supertypes can be reached from its root,
and the failure names such a cycle, from a key back to itself.

A resolution that succeeds has resolved all supertypes along the way down to them, so a path that came
back to a key would have been refused: no cycle is in reach. A resolution that fails does so on a chain
that is itself a path of supertypes, and the cycle is its end. -/

namespace Lineage
namespace Workspace

variable {workspace : Workspace}

/-! ## Steps from key to key -/

/-- A declaration with the first key has a direct supertype with the second. -/
def Extends (workspace : Workspace) (key super : DeclarationKey) : Prop :=
  ∃ declaration, workspace.Lists declaration ∧ declaration.key = key ∧
    ∃ target ∈ workspace.supertypes declaration, target.key = super

/-- From a key one gets to a key that is above itself. -/
def ReachesCycle (workspace : Workspace) (key : DeclarationKey) : Prop :=
  ∃ above, Relation.ReflTransGen workspace.Extends key above ∧
    Relation.TransGen workspace.Extends above above

/-- A cycle of supertypes in reach of `key`, written from one of its keys back to the same key. -/
structure IsCycleFrom (workspace : Workspace) (key : DeclarationKey) (cycle : List DeclarationKey) :
    Prop where
  two_le_length : 2 ≤ cycle.length
  head_eq_last : cycle.head? = cycle.getLast?
  nodup : cycle.dropLast.Nodup
  reached : ∀ other ∈ cycle, Relation.ReflTransGen workspace.Extends key other
  linked : cycle.IsChain workspace.Extends

/-- A step from the key of a declaration leads to one of its own supertypes. -/
theorem Built.exists_of_extends (hw : workspace.Built) {declaration : Declaration}
    (h : workspace.Lists declaration) {super : DeclarationKey}
    (hextends : workspace.Extends declaration.key super) :
    ∃ target ∈ workspace.supertypes declaration, target.key = super := by
  obtain ⟨other, hother, hkey, target, hmem, htarget⟩ := hextends
  rw [supertypes_congr hkey (hw.text_eq_of_key_eq hother h hkey)] at hmem
  exact ⟨target, hmem, htarget⟩

/-- All keys of a path can be reached from its first. -/
theorem reflTransGen_of_isChain {key : DeclarationKey} {path : List DeclarationKey}
    (h : (key :: path).IsChain workspace.Extends) :
    ∀ other ∈ key :: path, Relation.ReflTransGen workspace.Extends key other := by
  intro other hmem
  rcases List.mem_cons.mp hmem with rfl | hmem
  · exact .refl
  · exact h.cons_induction (Relation.ReflTransGen workspace.Extends key) path
      (fun _ _ hstep hreach => hreach.tail hstep) .refl other hmem

theorem IsCycleFrom.reachesCycle {key : DeclarationKey} {cycle : List DeclarationKey}
    (h : workspace.IsCycleFrom key cycle) : workspace.ReachesCycle key := by
  obtain ⟨hlength, hclosed, -, hreached, hlinked⟩ := h
  match cycle, hlength with
  | first :: second :: rest, _ =>
    refine ⟨first, hreached first List.mem_cons_self, ?_⟩
    have hlast : first ∈ second :: rest := by
      rw [List.head?_cons, List.getLast?_cons_cons] at hclosed
      exact List.mem_of_getLast? hclosed.symm
    have hstep : workspace.Extends first second := hlinked.rel_head? rfl
    exact .head' hstep (reflTransGen_of_isChain hlinked.tail first hlast)

/-! ## Successful resolutions -/

/-- Resolving `declaration` along `chain` succeeds. -/
def Resolves (workspace : Workspace) (chain : List DeclarationKey) (declaration : Declaration) :
    Prop :=
  workspace.Lists declaration ∧
    ∃ depth node, workspace.answers.resolveAlong depth chain declaration = .ok node

/-- If a declaration resolves, so do its supertypes, with its key on their chain. -/
theorem Resolves.step (hw : workspace.Built) {declaration : Declaration}
    {chain : List DeclarationKey} (h : workspace.Resolves chain declaration)
    {super : DeclarationKey} (hextends : workspace.Extends declaration.key super) :
    ∃ target, target.key = super ∧ workspace.Resolves (chain ++ [declaration.key]) target := by
  obtain ⟨hlists, depth, node, hnode⟩ := h
  obtain ⟨target, hmem, htarget⟩ := hw.exists_of_extends hlists hextends
  obtain ⟨-, -, below, hall⟩ := resolveAlong_ok hnode
  obtain ⟨found, -, hfound⟩ := Answers.exists_of_forall₂ hall hmem
  exact ⟨target, htarget, lists_of_mem_supertypes hmem, below, found, hfound⟩

/-- If a declaration resolves, so does everything above it, with its key on the chain. -/
theorem Resolves.steps (hw : workspace.Built) {declaration : Declaration}
    {chain : List DeclarationKey} (h : workspace.Resolves chain declaration)
    {super : DeclarationKey}
    (hextends : Relation.TransGen workspace.Extends declaration.key super) :
    ∃ target longer, target.key = super ∧ declaration.key ∈ longer ∧
      workspace.Resolves longer target := by
  induction hextends with
  | single hstep =>
    obtain ⟨target, hkey, htarget⟩ := h.step hw hstep
    exact ⟨target, _, hkey, by simp, htarget⟩
  | tail _ hstep ih =>
    obtain ⟨target, longer, rfl, hmem, htarget⟩ := ih
    obtain ⟨next, hkey, hnext⟩ := htarget.step hw hstep
    exact ⟨next, _, hkey, List.mem_append_left _ hmem, hnext⟩

/-- From a declaration that resolves no cycle is in reach. -/
theorem Resolves.not_reachesCycle (hw : workspace.Built) {declaration : Declaration}
    {chain : List DeclarationKey} (h : workspace.Resolves chain declaration) :
    ¬ workspace.ReachesCycle declaration.key := by
  rintro ⟨above, hreach, hcycle⟩
  obtain ⟨target, longer, rfl, htarget⟩ : ∃ target longer, target.key = above ∧
      workspace.Resolves longer target := by
    rcases Relation.reflTransGen_iff_eq_or_transGen.mp hreach with rfl | hreach
    · exact ⟨declaration, chain, rfl, h⟩
    · obtain ⟨target, longer, hkey, -, htarget⟩ := h.steps hw hreach
      exact ⟨target, longer, hkey, htarget⟩
  -- going round the cycle leads to a declaration whose key is already on its chain
  obtain ⟨again, round, hkey, hmem, -, depth, node, hnode⟩ := htarget.steps hw hcycle
  rw [← hkey] at hmem
  exact (resolveAlong_ok hnode).2.1 hmem

/-! ## Failing resolutions -/

theorem Built.exists_typeKind (hw : workspace.Built) {declaration : Declaration}
    (h : workspace.Lists declaration) : ∃ kind, declaration.typeKind = .ok kind := by
  have htype := hw.isType h
  rw [Declaration.typeKind]
  cases hkind : declaration.kind <;> rw [hkind] at htype <;> first | exact ⟨_, rfl⟩ | cases htype

/-- A path of supertypes from `start` that ends where it has been before. -/
structure Closes (workspace : Workspace) (start : DeclarationKey) (chain : List DeclarationKey)
    (key : DeclarationKey) : Prop where
  start_eq : chain.head? = some start
  nodup : chain.Nodup
  mem : key ∈ chain
  linked : (chain ++ [key]).IsChain workspace.Extends

/-- The end of such a path is a cycle. -/
theorem Closes.isCycleFrom {start key : DeclarationKey} {chain : List DeclarationKey}
    (h : workspace.Closes start chain key) :
    workspace.IsCycleFrom start (chain.dropWhile (· ≠ key) ++ [key]) := by
  obtain ⟨front, rest, rfl, hfront⟩ := List.eq_append_cons_of_mem h.mem
  have hlinked := h.linked
  rw [List.append_assoc] at hlinked
  rw [dropWhile_ne hfront]
  refine ⟨by simp, by rw [List.getLast?_concat]; rfl, ?_, ?_, hlinked.right_of_append⟩
  · rw [List.dropLast_concat]
    exact h.nodup.of_append_right
  · intro other hmem
    obtain ⟨path, hpath⟩ := List.head?_eq_some_iff.mp h.start_eq
    have hreach := h.linked
    rw [hpath, List.cons_append] at hreach
    refine reflTransGen_of_isChain hreach other ?_
    rw [← List.cons_append, ← hpath, List.append_assoc]
    exact List.mem_append_right _ hmem

/-- **A failing resolution has found a cycle.** The chain along which it fails is a path of supertypes
    from `start`, and the last step of it leads back. -/
theorem Built.closes_of_error (hw : workspace.Built) {depth : Nat} {start : DeclarationKey}
    {chain : List DeclarationKey} {declaration : Declaration} {halt : Halt}
    (hlists : workspace.Lists declaration) (hroom : Room workspace.declarationKeys chain depth)
    (hstart : (chain ++ [declaration.key]).head? = some start)
    (hlinked : (chain ++ [declaration.key]).IsChain workspace.Extends)
    (h : workspace.answers.resolveAlong depth chain declaration = .error halt) :
    ∃ cycle, halt = .failed (.cyclic cycle) ∧ workspace.IsCycleFrom start cycle := by
  -- the chain is general: it grows with every supertype that is followed
  induction depth generalizing chain declaration with
  | zero =>
    obtain ⟨_, ⟨⟩⟩ := hroom.exists_succ
  | succ depth ih =>
    rcases Answers.resolveAlong_error h with ⟨error, hkind, -⟩ | ⟨hmem, rfl⟩ |
      ⟨kind, hkind, hmem, hnone | ⟨references, hreferences, positions, hpositions, hfail⟩⟩
    · obtain ⟨kind, hok⟩ := hw.exists_typeKind hlists
      rw [hkind] at hok
      cases hok
    · refine ⟨_, rfl, Closes.isCycleFrom ⟨?_, hroom.nodup, hmem, hlinked⟩⟩
      rwa [List.head?_append_of_ne_nil _ (List.ne_nil_of_mem hmem)] at hstart
    · exact absurd hnone (hw.references?_ne_none hlists kind)
    · rcases hfail with hfail | ⟨targets, htargets, target, htarget, hfail⟩
      · rw [targets_answers] at hfail
        cases hfail
      · have hsuper := mem_supertypes hkind hreferences hpositions htargets htarget
        have hextends : workspace.Extends declaration.key target.key :=
          ⟨declaration, hlists, rfl, target, hsuper, rfl⟩
        refine ih (lists_of_mem_supertypes hsuper)
          (hroom.push hmem (key_mem_declarationKeys hlists)) ?_ ?_ hfail
        · rw [List.head?_append_of_ne_nil _ (by simp)]
          exact hstart
        · refine hlinked.append (List.isChain_singleton _) ?_
          intro last hlast next hnext
          rw [List.getLast?_concat] at hlast
          cases hlast
          cases hnext
          exact hextends

/-- The cycle that a failing resolution of a listed declaration names. -/
theorem Built.exists_cycle_of_error (hw : workspace.Built) {root : Declaration}
    (hroot : workspace.Lists root) {depth : Nat}
    (hdepth : workspace.declarationKeys.length < depth) {halt : Halt}
    (h : workspace.answers.resolveAlong depth [] root = .error halt) :
    ∃ cycle, halt = .failed (.cyclic cycle) ∧ workspace.IsCycleFrom root.key cycle :=
  hw.closes_of_error hroot (Room.nil hdepth) rfl (List.isChain_singleton _) h

/-! ## Resolutions by the builder -/

end Workspace
end Lineage
