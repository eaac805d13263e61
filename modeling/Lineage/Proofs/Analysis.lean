import Lineage.Analysis
import Lineage.Proofs.Hierarchy.Rounds
import Lineage.Proofs.Workspace.Supertypes

set_option autoImplicit false

/-! # What an analysis says

Caching and memoization do not show in an analysis: over services whose answers depend on the question
alone, each root has the outcome that `Answers.outcome` gives it, computed for this root by itself and
without any memory. It does not matter which other roots are analyzed in the same pass, in which order
and with which success.

That is so where services answer at once. Where they answer later, a pass still comes to an end, with the
same pairings and the same roots failing (`analyzeDeclarations_inRounds_resembles`). But two branches that
both fail may race, and then another failure may be reported. -/

namespace Lineage

/-- An analysis that says what the root comes to without memory, with room for `bound` nested calls or
    more. -/
structure RootAnalysis.Reflects (answers : Answers) (bound : Nat) (root : Declaration)
    (analysis : RootAnalysis) : Prop where
  root_eq : analysis.root = root.key
  outcome_eq : ∀ depth, bound ≤ depth →
    answers.outcome depth root = analysis.outcome.mapError .failed

namespace Build

variable {σ : Type} {services : Services σ} {answers : Answers} {known : Declaration → Prop}

/-! ## One root -/

theorem exec_analyzeRootTraced (tracing : Tracing) (resolve : Declaration → Build σ TypeNode)
    (root : Declaration) (s : BuildState σ) :
    exec (analyzeRootTraced tracing resolve root) s =
      match exec (resolve root) s with
      | (.ok node, s') => (.ok ⟨root.key, .ok node.classify⟩, s')
      | (.error (.failed error), s') =>
        (if tracing.Overflows .skipping root.key then .error .overflow
          else .ok ⟨root.key, .error error⟩, s')
      | (.error halt, s') => (.error halt, s') := by
  rw [analyzeRootTraced, exec_bind, exec_outcome]
  rcases exec (resolve root) s with ⟨halt | node, s'⟩
  · cases halt with
    | failed error =>
      dsimp only
      rw [exec_bind, exec_trace]
      by_cases h : tracing.Overflows .skipping root.key
      · rw [if_pos h, if_pos h]
      · rw [if_neg h, if_neg h]
        rfl
    | overflow => rfl
    | blocked key => rfl
    | exhausted => rfl
  · rfl

theorem exec_analyzeRoot (resolve : Declaration → Build σ TypeNode) (root : Declaration)
    (s : BuildState σ) :
    exec (analyzeRoot resolve root) s =
      match exec (resolve root) s with
      | (.ok node, s') => (.ok ⟨root.key, .ok node.classify⟩, s')
      | (.error (.failed error), s') => (.ok ⟨root.key, .error error⟩, s')
      | (.error halt, s') => (.error halt, s') := by
  rw [analyzeRoot, exec_analyzeRootTraced]
  rfl

/-- An analysis does no more to the state than the resolution that it makes. -/
theorem analyzeRootTraced_state (tracing : Tracing) (resolve : Declaration → Build σ TypeNode)
    (root : Declaration) (s : BuildState σ) :
    (exec (analyzeRootTraced tracing resolve root) s).2 = (exec (resolve root) s).2 := by
  rw [exec_analyzeRootTraced]
  rcases exec (resolve root) s with ⟨halt | node, s'⟩
  · cases halt <;> rfl
  · rfl

/-- The analysis of a root is that of its resolution without memory. -/
theorem Ready.exec_analyzeRoot {s : BuildState σ} (hs : Ready answers .whole known s)
    (hanswers : services.AnswersWith answers) {keys : List DeclarationKey}
    (hcon : Consistent answers .whole known keys)
    (hlength : keys.length ≤ services.declarationKeys.length + 1) {root : Declaration}
    (hknown : known root) (hkey : root.key ∈ keys) :
    ∃ analysis s', exec (analyzeRoot (Build.resolve services) root) s = (.ok analysis, s') ∧
      analysis.Reflects answers (depthBound services) root ∧ Ready answers .whole known s' := by
  have hagreement : ∀ depth, depthBound services ≤ depth →
      Agreement answers .whole known depth [] root (exec (Build.resolve services root) s) :=
    fun _ hdepth => (hs.exec_resolve hanswers hcon hlength hknown hkey hdepth).1
  have hready := (hs.exec_resolve hanswers hcon hlength hknown hkey (Nat.le_refl _)).2
  rw [Build.exec_analyzeRoot]
  rcases hout : exec (Build.resolve services root) s with ⟨halt | node, s'⟩ <;>
    rw [hout] at hagreement hready
  · obtain ⟨error, rfl⟩ := (hagreement _ (Nat.le_refl _)).settled halt rfl
    refine ⟨_, s', rfl, ⟨rfl, fun depth hdepth => ?_⟩, hready⟩
    have hreference : answers.resolveAlong depth [] root = .error (.failed error) :=
      (hagreement depth hdepth).mirrors
    rw [Answers.outcome, hreference]
    rfl
  · refine ⟨_, s', rfl, ⟨rfl, fun depth hdepth => ?_⟩, hready⟩
    obtain ⟨found, hreference, hstrip⟩ := (hagreement depth hdepth).mirrors
    -- classification sees neither ids nor which of two equal nodes was cached
    have hclassify : found.classify = node.classify := by
      rw [← TypeNode.classify_strip found, hstrip, TypeNode.classify_strip]
    rw [Answers.outcome, hreference, ← hclassify]
    rfl

/-! ## All roots of a pass -/

/-- A pass analyzes its roots one after the other, with nothing remembered from before. -/
theorem exec_analyzeDeclarationsTraced (tracing : Tracing)
    (resolve : Declaration → Build σ TypeNode) (uri : String) (roots : List Declaration)
    (s : BuildState σ) :
    exec (analyzeDeclarationsTraced tracing resolve uri roots) s =
      ((exec (roots.mapM (analyzeRootTraced tracing resolve)) (beginPass s)).1.map
          (DocumentAnalysis.mk uri),
        (exec (roots.mapM (analyzeRootTraced tracing resolve)) (beginPass s)).2) := by
  rw [analyzeDeclarationsTraced, exec_bind, exec_modify]
  dsimp only
  rw [exec_bind]
  rcases exec (roots.mapM (analyzeRootTraced tracing resolve)) (beginPass s) with
    ⟨halt | analyses, s'⟩ <;> rfl

theorem exec_analyzeDeclarations_eq (resolve : Declaration → Build σ TypeNode) (uri : String)
    (roots : List Declaration) (s : BuildState σ) :
    exec (analyzeDeclarations resolve uri roots) s =
      ((exec (roots.mapM (analyzeRoot resolve)) (beginPass s)).1.map (DocumentAnalysis.mk uri),
        (exec (roots.mapM (analyzeRoot resolve)) (beginPass s)).2) :=
  exec_analyzeDeclarationsTraced .off resolve uri roots s

theorem Ready.exec_mapM_analyzeRoot {s : BuildState σ} (hs : Ready answers .whole known s)
    (hanswers : services.AnswersWith answers) {roots : List Declaration}
    (hcon : ∀ root ∈ roots, known root ∧ ∃ keys, root.key ∈ keys ∧
      keys.length ≤ services.declarationKeys.length + 1 ∧ Consistent answers .whole known keys) :
    ∃ analyses s', exec (roots.mapM (analyzeRoot (Build.resolve services))) s = (.ok analyses, s') ∧
      List.Forall₂ (RootAnalysis.Reflects answers (depthBound services)) roots analyses := by
  induction roots generalizing s with
  | nil => exact ⟨[], s, rfl, .nil⟩
  | cons root rest ih =>
    obtain ⟨hknown, keys, hkey, hlength, hconsistent⟩ := hcon root List.mem_cons_self
    obtain ⟨analysis, s', hfirst, hreflects, hready⟩ :=
      hs.exec_analyzeRoot hanswers hconsistent hlength hknown hkey
    obtain ⟨analyses, s'', hrest, hall⟩ :=
      ih hready fun other hother => hcon other (List.mem_cons_of_mem _ hother)
    refine ⟨analysis :: analyses, s'', ?_, .cons hreflects hall⟩
    rw [exec_mapM_cons, hfirst]
    dsimp only
    rw [hrest]

/-- A pass over consistent declarations, from any state of the builder. -/
theorem exec_analyzeDeclarations (hanswers : services.AnswersWith answers)
    {roots : List Declaration}
    (hcon : ∀ root ∈ roots, known root ∧ ∃ keys, root.key ∈ keys ∧
      keys.length ≤ services.declarationKeys.length + 1 ∧ Consistent answers .whole known keys)
    (uri : String) (state : BuildState σ) :
    ∃ analyses s', exec (analyzeDeclarations (Build.resolve services) uri roots) state =
        (.ok ⟨uri, analyses⟩, s') ∧
      List.Forall₂ (RootAnalysis.Reflects answers (depthBound services)) roots analyses := by
  have hs : Ready answers .whole known (beginPass state) := ready_beginPass state
  obtain ⟨analyses, s', hexec, hall⟩ := hs.exec_mapM_analyzeRoot hanswers hcon
  refine ⟨analyses, s', ?_, hall⟩
  rw [exec_analyzeDeclarations_eq, hexec]
  rfl

/-- The declarations that take part in the analysis of some roots: the roots, and the types that the
    services answer with. -/
def TakesPart (answers : Answers) (roots : List Declaration) (declaration : Declaration) : Prop :=
  declaration ∈ roots ∨ declaration.kind.isType = true ∧
    ∃ uri range, answers.findDeclaration uri range = .ok (some declaration)

/-- Declarations told apart by their keys are consistent, together with any key. -/
theorem consistent_takesPart {roots : List Declaration} {keys : List DeclarationKey}
    (hlisted : ∀ uri range declaration,
      answers.findDeclaration uri range = .ok (some declaration) → declaration.key ∈ keys)
    (hdetermined : ∀ declaration other, TakesPart answers roots declaration →
      TakesPart answers roots other → declaration.key = other.key → declaration = other)
    (hfits : ∀ declaration kind, TakesPart answers roots declaration →
      declaration.typeKind = .ok kind → declaration.references? kind ≠ none)
    (key : DeclarationKey) :
    Consistent answers .whole (TakesPart answers roots) (key :: keys) where
  answered hfind htype := .inr ⟨htype, _, _, hfind⟩
  listed hfind _ := List.mem_cons_of_mem _ (hlisted _ _ _ hfind)
  determined h h' := hdetermined _ _ h h'
  fits h := hfits _ _ h
  key_view _ := rfl
  text_view _ := rfl

end Build

namespace Workspace

/-- A class that extends one of two classes on a cycle and implements an interface that extends itself. -/
def sampleRace : Workspace := ofSnapshot {
  documents := [{
    uri := "race"
    languageId := none
    text := "interface J extends J {} class B extends C {} class C extends B {} " ++
      "class A extends B implements J {}"
    symbols := [
      ⟨"J", none, .interfaceType, ⟨⟨0, 0⟩, ⟨0, 24⟩⟩, ⟨⟨0, 10⟩, ⟨0, 11⟩⟩, []⟩,
      ⟨"B", none, .classType, ⟨⟨0, 25⟩, ⟨0, 45⟩⟩, ⟨⟨0, 31⟩, ⟨0, 32⟩⟩, []⟩,
      ⟨"C", none, .classType, ⟨⟨0, 46⟩, ⟨0, 66⟩⟩, ⟨⟨0, 52⟩, ⟨0, 53⟩⟩, []⟩,
      ⟨"A", none, .classType, ⟨⟨0, 67⟩, ⟨0, 100⟩⟩, ⟨⟨0, 73⟩, ⟨0, 74⟩⟩, []⟩] }]
  definitions := [
    ⟨"race", ⟨⟨0, 20⟩, ⟨0, 21⟩⟩, [⟨"race", ⟨⟨0, 0⟩, ⟨0, 24⟩⟩⟩]⟩,
    ⟨"race", ⟨⟨0, 41⟩, ⟨0, 42⟩⟩, [⟨"race", ⟨⟨0, 46⟩, ⟨0, 66⟩⟩⟩]⟩,
    ⟨"race", ⟨⟨0, 62⟩, ⟨0, 63⟩⟩, [⟨"race", ⟨⟨0, 25⟩, ⟨0, 45⟩⟩⟩]⟩,
    ⟨"race", ⟨⟨0, 83⟩, ⟨0, 84⟩⟩, [⟨"race", ⟨⟨0, 25⟩, ⟨0, 45⟩⟩⟩]⟩,
    ⟨"race", ⟨⟨0, 96⟩, ⟨0, 97⟩⟩, [⟨"race", ⟨⟨0, 0⟩, ⟨0, 24⟩⟩⟩]⟩] }

/-- The last class of `sampleRace`. -/
def sampleRaceClass : Declaration :=
  ⟨"A", .classType, "race", ⟨⟨0, 67⟩, ⟨0, 100⟩⟩, "class A extends B implements J {}", []⟩

/-- A key of `sampleRace`, by the columns of its range. -/
def sampleRaceKey (name : String) (kind : SymbolKind) (start stop : UInt32) : DeclarationKey :=
  ⟨name, kind, "race", ⟨⟨0, start⟩, ⟨0, stop⟩⟩⟩

theorem built_sampleRace : sampleRace.Built :=
  built_ofSnapshot (by decide)

end Workspace

namespace Build

open Workspace (sampleRace sampleRaceClass sampleRaceKey)

end Build

/-! ## Services that answer later -/

/-- An analysis that says of a root which pairings it has without memory, or that it fails. -/
structure RootAnalysis.Resembles (answers : Answers) (bound : Nat) (root : Declaration)
    (analysis : RootAnalysis) : Prop where
  root_eq : analysis.root = root.key
  outcome : ∀ depth, bound ≤ depth →
    match analysis.outcome with
    | .ok pairings => answers.outcome depth root = .ok pairings
    | .error _ => ∃ error, answers.outcome depth root = .error (.failed error)

namespace Build

variable {σ : Type} {services : Services σ} {answers : Answers} {known : Declaration → Prop}

/-- The analysis of a root halts only if the rounds are not enough. -/
theorem analyzeRoot_inRounds_resembles (hanswers : services.AnswersWith answers)
    {keys : List DeclarationKey} (hcon : Consistent answers .whole known keys)
    (hlength : keys.length ≤ services.declarationKeys.length + 1) {root : Declaration}
    (hknown : known root) (hkey : root.key ∈ keys) (rounds : Nat) :
    Ensures (fun s => Upholds answers .whole known s ∧ s.claims.inFlight = [])
      (analyzeRoot (resolveInRounds services rounds) root)
      (RootAnalysis.Resembles answers (depthBound services) root)
      fun _ => rounds ≤ answers.cost (depthBound services) root := by
  rintro s ⟨hs, hidle⟩
  obtain ⟨hupholds, hresembles⟩ :=
    resolveInRounds_resembles hanswers hcon hlength hs hknown hkey rounds
  have hidle' := inFlight_resolveInRounds services rounds root hidle
  have hsettled := fun hrounds : answers.cost (depthBound services) root < rounds =>
    resolveInRounds_settled hanswers hcon hlength hs hidle hknown hkey hrounds
  rw [exec_analyzeRoot]
  rcases hout : exec (resolveInRounds services rounds root) s with ⟨halt | node, s'⟩ <;>
    rw [hout] at hupholds hresembles hidle' hsettled
  · cases halt with
    | failed error =>
      refine ⟨⟨hupholds, hidle'⟩, rfl, fun depth hdepth => ?_⟩
      obtain ⟨error', hreference⟩ := hresembles depth hdepth
      refine ⟨error', ?_⟩
      rw [Answers.outcome, hreference]
      rfl
    | _ =>
      refine ⟨⟨hupholds, hidle'⟩, Nat.le_of_not_lt fun hrounds => ?_⟩
      obtain ⟨error, herror⟩ := hsettled hrounds _ rfl
      cases herror
  · refine ⟨⟨hupholds, hidle'⟩, rfl, fun depth hdepth => ?_⟩
    obtain ⟨found, hreference, hstrip⟩ := hresembles depth hdepth
    show answers.outcome depth root = .ok node.classify
    rw [Answers.outcome, hreference, ← TypeNode.classify_strip node, ← hstrip,
      TypeNode.classify_strip]
    rfl

/-- **Races show only in failures.** Where services answer later, a pass says of each root, in order,
    which pairings it has without memory, or that it fails, as it does then; and it comes to an end if
    the rounds are enough. -/
theorem analyzeDeclarations_inRounds_resembles (hanswers : services.AnswersWith answers)
    {roots : List Declaration}
    (hlisted : ∀ uri range declaration,
      answers.findDeclaration uri range = .ok (some declaration) →
        declaration.key ∈ services.declarationKeys)
    (hdetermined : ∀ declaration other, TakesPart answers roots declaration →
      TakesPart answers roots other → declaration.key = other.key → declaration = other)
    (hfits : ∀ declaration kind, TakesPart answers roots declaration →
      declaration.typeKind = .ok kind → declaration.references? kind ≠ none)
    (rounds : Nat) (uri : String) (state : BuildState σ) :
    match (exec (analyzeDeclarations (resolveInRounds services rounds) uri roots) state).1 with
    | .ok analysis => analysis.uri = uri ∧
        List.Forall₂ (RootAnalysis.Resembles answers (depthBound services)) roots analysis.roots
    | .error _ => ∃ root ∈ roots, rounds ≤ answers.cost (depthBound services) root := by
  have hroots : Ensures
      (fun s => Upholds answers .whole (TakesPart answers roots) s ∧ s.claims.inFlight = [])
      (roots.mapM (analyzeRoot (resolveInRounds services rounds)))
      (List.Forall₂ (RootAnalysis.Resembles answers (depthBound services)) roots)
      fun _ => ∃ root ∈ roots, rounds ≤ answers.cost (depthBound services) root :=
    .mapM fun root hroot => (analyzeRoot_inRounds_resembles hanswers
      (consistent_takesPart hlisted hdetermined hfits root.key) (Nat.le_refl _) (.inl hroot)
      List.mem_cons_self rounds).mono_error fun _ hrounds => ⟨root, hroot, hrounds⟩
  have hall := (hroots (beginPass state) ⟨upholds_beginPass state, rfl⟩).2
  rw [exec_analyzeDeclarations_eq]
  cases hout : (exec (roots.mapM (analyzeRoot (resolveInRounds services rounds)))
    (beginPass state)).1 with
  | error halt =>
    rw [hout] at hall
    exact hall
  | ok analyses =>
    rw [hout] at hall
    exact ⟨rfl, hall⟩

end Build
end Lineage
