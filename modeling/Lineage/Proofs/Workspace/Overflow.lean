import Lineage.Proofs.Analysis

set_option autoImplicit false

/-! # Overflows over a workspace

Positions are checked sums, and a sum that leaves the 32-bit range halts with `Halt.overflow`. There are
two places where that can happen. One is a reference: what a resolution meets are the root and
declarations that the workspace lists, and the references of those have positions, whatever ranges their
outlines give (`Built.positionOf_ne_none`). It may meet them through the memo, so one has to know that
the memo holds answers of the workspace only, which stays so whatever the builder is used for.

The other is a message that shows a key, with line and column counted from one. A declaration may start
in the last column there is, and then such a message halts the resolution or the analysis that it is
about (`sampleEdge_overflows`). Without tracing, or where no declaration starts on the last line or in the
last column, nothing overflows. -/

namespace Lineage

namespace Build

variable {σ : Type} {services : Services σ} {answers : Answers}

/-! ## The memo -/

/-- The memo holds answers of the services only. -/
def Remembers (answers : Answers) (s : BuildState σ) : Prop :=
  MemoAgrees answers s.lookups.memo

theorem definitionsAt_remembers (hanswers : services.AnswersWith answers) (uri : String)
    (position : Position) (lookups : LookupState σ) (hs : MemoAgrees answers lookups.memo) :
    MemoAgrees answers (exec (Lookup.definitionsAt services uri position) lookups).2.memo :=
  (Lookup.definitionsAt_agrees hanswers uri position lookups hs).2

theorem resolveReferences_remembers (hanswers : services.AnswersWith answers)
    {resolve : Declaration → Build σ TypeNode}
    (hresolve : ∀ target s, Remembers answers s → Remembers answers (exec (resolve target) s).2)
    (uri : String) (positions : List Position) {s : BuildState σ} (hs : Remembers answers s) :
    Remembers answers (exec (resolveReferences services resolve uri positions) s).2 :=
  resolveReferences_keeps (definitionsAt_remembers hanswers) hresolve uri positions hs

/-- Whatever is resolved, and however it ends, the memo holds answers only. -/
theorem resolveFromTraced_remembers (hanswers : services.AnswersWith answers) (tracing : Tracing)
    (depth : Nat) (requester : Option DeclarationKey) (declaration : Declaration)
    {s : BuildState σ} (hs : Remembers answers s) :
    Remembers answers
      (exec (resolveFromTraced tracing services depth requester declaration) s).2 :=
  resolveFromTraced_keeps (definitionsAt_remembers hanswers) tracing depth requester declaration hs

theorem resolveFrom_remembers (hanswers : services.AnswersWith answers) (depth : Nat)
    (requester : Option DeclarationKey) (declaration : Declaration) {s : BuildState σ}
    (hs : Remembers answers s) :
    Remembers answers (exec (resolveFrom services depth requester declaration) s).2 :=
  resolveFromTraced_remembers hanswers .off depth requester declaration hs

end Build

/-! ## Messages -/

/-- One more than a number is out of range only for the last number. -/
theorem addChecked_one_eq_none_iff (a : UInt32) : addChecked a 1 = none ↔ a = 4294967295 := by
  have hlt : a.toNat < 4294967296 := a.toNat_lt
  have hone : (1 : UInt32).toNat = 1 := rfl
  have hlast : (4294967295 : UInt32).toNat = 4294967295 := rfl
  rw [addChecked, ← UInt32.toNat_inj, hone, hlast, UInt32.size]
  by_cases h : a.toNat + 1 < 4294967296
  · simp [h]
    omega
  · simp [h]
    omega

/-- A key can be put into words unless it starts on the last line or in the last column. -/
theorem DeclarationKey.describe_eq_none_iff (key : DeclarationKey) :
    key.describe = none ↔
      key.range.start.line = 4294967295 ∨ key.range.start.character = 4294967295 := by
  rw [← addChecked_one_eq_none_iff, ← addChecked_one_eq_none_iff, describe]
  cases addChecked key.range.start.line 1 with
  | none => simp
  | some line => cases addChecked key.range.start.character 1 <;> simp

namespace Workspace

open Build

variable {workspace : Workspace} {declaration : Declaration} {s : BuildState ServiceCounts}

/-! ## Resolutions -/

/-- Whatever a lookup over a workspace finds, the workspace lists it. -/
theorem lists_of_lookupTargets (hs : Remembers workspace.answers s) {uri : String}
    {positions : List Position} {found : List (List Declaration)}
    (h : (exec (lookupTargets workspace.services uri positions) s).1 = .ok found)
    {target : Declaration} (htarget : target ∈ found.flatten) : workspace.Lists target := by
  have htargets := (lookupTargets_agrees workspace.answersWith uri positions s hs).1
  rw [h] at htargets
  obtain ⟨location, hfind, -⟩ := Answers.exists_of_mem_targets htargets.symm htarget
  exact lists_of_findDeclaration hfind

theorem resolveReferences_ne_overflow {resolve : Declaration → Build ServiceCounts TypeNode}
    (hremembers : ∀ target s, Remembers workspace.answers s →
      Remembers workspace.answers (exec (resolve target) s).2)
    (hresolve : ∀ target s, Remembers workspace.answers s → workspace.Lists target →
      (exec (resolve target) s).1 ≠ .error .overflow)
    (uri : String) (positions : List Position) (hs : Remembers workspace.answers s) :
    (exec (resolveReferences workspace.services resolve uri positions) s).1 ≠
      .error .overflow := by
  have hlooked := (lookupTargets_agrees workspace.answersWith uri positions s hs).2
  rw [exec_resolveReferences]
  rcases hout : exec (lookupTargets workspace.services uri positions) s with
    ⟨halt | found, s'⟩ <;> rw [hout] at hlooked
  · rintro ⟨⟩
    -- a lookup fails as the services do
    have hfail : (exec (lookupTargets workspace.services uri positions) s).1 =
        .error .overflow := by rw [hout]
    obtain ⟨_, ⟨⟩⟩ := lookupTargets_error hfail
  · intro hoverflow
    obtain ⟨target, htarget, s'', hs'', hfail⟩ :=
      exec_mapM_error_of_invariant hremembers hlooked hoverflow
    refine hresolve target s'' hs'' ?_ hfail
    exact lists_of_lookupTargets hs (by rw [hout]) htarget

/-- The build of a listed type: its references have positions, and their targets are listed. -/
theorem Built.buildNode_ne_overflow (hw : workspace.Built)
    {resolve : Declaration → Build ServiceCounts TypeNode}
    (hremembers : ∀ target s, Remembers workspace.answers s →
      Remembers workspace.answers (exec (resolve target) s).2)
    (hresolve : ∀ target s, Remembers workspace.answers s → workspace.Lists target →
      (exec (resolve target) s).1 ≠ .error .overflow)
    (hlists : workspace.Lists declaration) (kind : TypeKind)
    (hs : Remembers workspace.answers s) :
    (exec (buildNode workspace.services resolve declaration kind) s).1 ≠ .error .overflow := by
  obtain ⟨references, hreferences⟩ :=
    Option.ne_none_iff_exists'.mp (hw.references?_ne_none hlists kind)
  have hclasses := resolveReferences_ne_overflow hremembers hresolve declaration.uri
    references.superClasses hs
  have hs' := resolveReferences_remembers workspace.answersWith hremembers declaration.uri
    references.superClasses hs
  rw [exec_buildNode, hreferences]
  dsimp only
  rcases hout : exec (resolveReferences workspace.services resolve declaration.uri
    references.superClasses) s with ⟨halt | superClasses, s'⟩ <;> rw [hout] at hclasses hs'
  · rintro ⟨⟩
    exact hclasses rfl
  · have hinterfaces := resolveReferences_ne_overflow hremembers hresolve declaration.uri
      references.superInterfaces hs'
    dsimp only
    rcases hout' : exec (resolveReferences workspace.services resolve declaration.uri
      references.superInterfaces) s' with ⟨halt | superInterfaces, s''⟩ <;>
      rw [hout'] at hinterfaces
    · rintro ⟨⟩
      exact hinterfaces rfl
    · rintro ⟨⟩

/-- Every message that is wanted about a listed declaration can be put into words. -/
def Tells (workspace : Workspace) (tracing : Tracing) : Prop :=
  ∀ message declaration, workspace.Lists declaration →
    ¬ tracing.Overflows message declaration.key

theorem tells_of_starts {tracing : Tracing}
    (h : ∀ message declaration, tracing.takes message = true → workspace.Lists declaration →
      declaration.range.start.line ≠ 4294967295 ∧
        declaration.range.start.character ≠ 4294967295) : workspace.Tells tracing := by
  rintro message declaration hlists ⟨htakes, hnone⟩
  obtain ⟨hline, hcharacter⟩ := h message declaration htakes hlists
  rcases (DeclarationKey.describe_eq_none_iff _).mp hnone with heq | heq
  · exact hline heq
  · exact hcharacter heq

/-- A claim of a listed declaration does not overflow. -/
theorem Tells.claimTraced_ne_overflow {tracing : Tracing} (htells : workspace.Tells tracing)
    (hlists : workspace.Lists declaration) (requester : Option DeclarationKey)
    (s : BuildState ServiceCounts) :
    (exec (claimTraced tracing declaration.key requester) s).1 ≠ .error .overflow := by
  rw [exec_claimTraced]
  rcases s.claims.claim declaration.key requester with cycle | ⟨answer, claims⟩
  · rintro ⟨⟩
  · cases answer with
    | ready node =>
      dsimp only
      rw [if_neg (htells .cacheHit declaration hlists)]
      rintro ⟨⟩
    | wait ticket =>
      dsimp only
      rw [if_neg (htells .waiting declaration hlists)]
      rintro ⟨⟩
    | owner => rintro ⟨⟩

/-- No resolution of a listed declaration overflows, whatever bound it has on nesting. -/
theorem Built.resolveFrom_ne_overflow (hw : workspace.Built) {tracing : Tracing}
    (htells : workspace.Tells tracing) (depth : Nat) (requester : Option DeclarationKey)
    (hlists : workspace.Lists declaration) (hs : Remembers workspace.answers s) :
    (exec (resolveFromTraced tracing workspace.services depth requester declaration) s).1 ≠
      .error .overflow := by
  induction depth generalizing requester declaration s with
  | zero => rintro ⟨⟩
  | succ depth ih =>
    rw [exec_resolveFromTraced_succ]
    cases declaration.typeKind with
    | error error => rintro ⟨⟩
    | ok kind =>
      dsimp only
      have hclaimed := htells.claimTraced_ne_overflow hlists requester s
      have hs' : Remembers workspace.answers
          (exec (claimTraced tracing declaration.key requester) s).2 := by
        rw [Remembers, claimTraced_lookups]
        exact hs
      rcases hclaim : exec (claimTraced tracing declaration.key requester) s with
        ⟨halt | answer, s'⟩ <;> rw [hclaim] at hclaimed hs'
      · rintro ⟨⟩
        exact hclaimed rfl
      · cases answer with
        | ready node => rintro ⟨⟩
        | wait ticket => rintro ⟨⟩
        | owner =>
          refine hw.buildNode_ne_overflow ?_ ?_ hlists kind hs'
          · intro target s'' hs''
            exact resolveFromTraced_remembers workspace.answersWith tracing depth
              (some declaration.key) target hs''
          · intro target s'' hs'' htarget
            exact ih (some declaration.key) htarget hs''

/-! ## Analyses -/

theorem analyzeRoot_remembers (tracing : Tracing) (depth : Nat) (root : Declaration)
    (hs : Remembers workspace.answers s) :
    Remembers workspace.answers
      (exec (analyzeRootTraced tracing (resolveWithinTraced tracing workspace.services depth) root)
        s).2 := by
  rw [analyzeRootTraced_state]
  exact resolveFromTraced_remembers workspace.answersWith tracing depth none root hs

theorem Built.analyzeRoot_ne_overflow (hw : workspace.Built) {tracing : Tracing}
    (htells : workspace.Tells tracing) (depth : Nat) (hlists : workspace.Lists declaration)
    (hs : Remembers workspace.answers s) :
    (exec (analyzeRootTraced tracing (resolveWithinTraced tracing workspace.services depth)
      declaration) s).1 ≠ .error .overflow := by
  have hresolved := hw.resolveFrom_ne_overflow htells depth none hlists hs
  rw [exec_analyzeRootTraced, resolveWithinTraced]
  rcases hout : exec (resolveFromTraced tracing workspace.services depth none declaration) s with
    ⟨halt | node, s'⟩ <;> rw [hout] at hresolved
  · cases halt with
    | failed error =>
      dsimp only
      rw [if_neg (htells .skipping declaration hlists)]
      rintro ⟨⟩
    | overflow => exact absurd rfl hresolved
    | blocked key => rintro ⟨⟩
    | exhausted => rintro ⟨⟩
  · rintro ⟨⟩

theorem remembers_beginPass (s : BuildState ServiceCounts) :
    Remembers workspace.answers (beginPass s) := by
  rintro location found ⟨⟩

theorem analyzeDeclarations_remembers (tracing : Tracing) (depth : Nat) (uri : String)
    (roots : List Declaration) :
    Remembers workspace.answers
      (exec (analyzeDeclarationsTraced tracing
        (resolveWithinTraced tracing workspace.services depth) uri roots) s).2 := by
  rw [exec_analyzeDeclarationsTraced]
  exact exec_mapM_invariant (fun root s' hs' => analyzeRoot_remembers tracing depth root hs') roots
    (remembers_beginPass s)

theorem Built.analyzeDeclarations_ne_overflow (hw : workspace.Built) {tracing : Tracing}
    (htells : workspace.Tells tracing) (depth : Nat) (uri : String) {roots : List Declaration}
    (hlists : ∀ root ∈ roots, workspace.Lists root) :
    (exec (analyzeDeclarationsTraced tracing
      (resolveWithinTraced tracing workspace.services depth) uri roots) s).1 ≠
      .error .overflow := by
  rw [exec_analyzeDeclarationsTraced]
  intro hoverflow
  have hfail : (exec (roots.mapM (analyzeRootTraced tracing
      (resolveWithinTraced tracing workspace.services depth))) (beginPass s)).1 =
      .error .overflow := by
    cases hout : (exec (roots.mapM (analyzeRootTraced tracing
      (resolveWithinTraced tracing workspace.services depth))) (beginPass s)).1 with
    | error halt => rw [hout] at hoverflow; cases hoverflow; rfl
    | ok analyses => rw [hout] at hoverflow; cases hoverflow
  obtain ⟨root, hroot, s', hs', hfail'⟩ := exec_mapM_error_of_invariant
    (fun root s' hs' => analyzeRoot_remembers tracing depth root hs') (remembers_beginPass s) hfail
  exact hw.analyzeRoot_ne_overflow htells depth (hlists root hroot) hs' hfail'

/-- The analysis of a document is that of the types it lists. -/
theorem exec_analyzeDocumentTraced_eq (tracing : Tracing)
    (resolve : Declaration → Build ServiceCounts TypeNode) (uri : String)
    (s : BuildState ServiceCounts) :
    exec (analyzeDocumentTraced tracing workspace.services resolve uri) s =
      exec (analyzeDeclarationsTraced tracing resolve uri
          ((workspace.declarations uri).filter fun declaration => declaration.kind.isType))
        { s with lookups := { s.lookups with world := s.lookups.world.countListing } } := rfl

/-! ## All uses of a builder -/

/-- What a builder is used for, with any bound on nesting. -/
inductive Use where
  | beginPass
  | resolve (depth : Nat) (root : Declaration)
  | analyzeDeclarations (depth : Nat) (uri : String) (roots : List Declaration)
  | analyzeDocument (depth : Nat) (uri : String)

/-- The state of a builder over a workspace after a use, however it ends. -/
def Use.runTraced (tracing : Tracing) (workspace : Workspace) (s : BuildState ServiceCounts) :
    Use → BuildState ServiceCounts
  | .beginPass => Build.beginPass s
  | .resolve depth root => (exec (resolveWithinTraced tracing workspace.services depth root) s).2
  | .analyzeDeclarations depth uri roots =>
    (exec (Build.analyzeDeclarationsTraced tracing
      (resolveWithinTraced tracing workspace.services depth) uri roots) s).2
  | .analyzeDocument depth uri =>
    (exec (Build.analyzeDocumentTraced tracing workspace.services
      (resolveWithinTraced tracing workspace.services depth) uri) s).2

/-- The state of a builder over a workspace after a use without tracing, however it ends. -/
def Use.run (workspace : Workspace) (s : BuildState ServiceCounts) (use : Use) :
    BuildState ServiceCounts :=
  use.runTraced .off workspace s

theorem Use.runTraced_remembers (use : Use) (tracing : Tracing)
    (hs : Remembers workspace.answers s) :
    Remembers workspace.answers (use.runTraced tracing workspace s) := by
  cases use with
  | beginPass => exact remembers_beginPass s
  | resolve depth root =>
    exact resolveFromTraced_remembers workspace.answersWith tracing depth none root hs
  | analyzeDeclarations depth uri roots => exact analyzeDeclarations_remembers tracing depth uri roots
  | analyzeDocument depth uri =>
    rw [runTraced, exec_analyzeDocumentTraced_eq]
    exact analyzeDeclarations_remembers tracing depth uri _

/-- The state of a new builder over a workspace after some uses, each with its own tracing. -/
def afterUses (workspace : Workspace) (uses : List (Tracing × Use)) : BuildState ServiceCounts :=
  uses.foldl (fun s use => use.2.runTraced use.1 workspace s) (start .zero)

theorem remembers_afterUses (uses : List (Tracing × Use)) :
    Remembers workspace.answers (workspace.afterUses uses) := by
  suffices h : ∀ s, Remembers workspace.answers s → Remembers workspace.answers
      (uses.foldl (fun s use => use.2.runTraced use.1 workspace s) s) from
    h _ (by rintro location found ⟨⟩)
  intro s hs
  induction uses generalizing s with
  | nil => exact hs
  | cons use rest ih => exact ih _ (use.2.runTraced_remembers use.1 hs)

/-- **What can overflow.** Every reference in the head of a declaration that a workspace lists has a
    position. So, whatever a builder over the workspace was used for before, resolving a listed
    declaration, analyzing listed declarations and analyzing a document never end in an overflow,
    unless a message is wanted and some listed declaration starts on the last line or in the last
    column. -/
theorem Built.never_overflows (hw : workspace.Built) :
    (∀ declaration, workspace.Lists declaration →
      ∀ offset ∈ (SupertypeClauses.scan declaration.text.toList).offsets,
        SupertypeClauses.positionOf (LineMap.ofText declaration.text.toList)
          declaration.range.start offset ≠ none) ∧
    ∀ (tracing : Tracing) (uses : List (Tracing × Use)) (depth : Nat),
      (∀ message declaration, tracing.takes message = true → workspace.Lists declaration →
        declaration.range.start.line ≠ 4294967295 ∧
          declaration.range.start.character ≠ 4294967295) →
      let resolve := resolveWithinTraced tracing workspace.services depth
      let s := workspace.afterUses uses
      (∀ declaration, workspace.Lists declaration →
        (exec (resolve declaration) s).1 ≠ .error .overflow) ∧
      (∀ uri roots, (∀ root ∈ roots, workspace.Lists root) →
        (exec (analyzeDeclarationsTraced tracing resolve uri roots) s).1 ≠ .error .overflow) ∧
      ∀ uri,
        (exec (analyzeDocumentTraced tracing workspace.services resolve uri) s).1 ≠
          .error .overflow := by
  refine ⟨fun declaration hlists offset hoffset => hw.positionOf_ne_none hlists hoffset, ?_⟩
  intro tracing uses depth hstarts resolve s
  have hs : Remembers workspace.answers s := remembers_afterUses uses
  have htells : workspace.Tells tracing := tells_of_starts hstarts
  refine ⟨?_, ?_, ?_⟩
  · intro declaration hlists
    exact hw.resolveFrom_ne_overflow htells depth none hlists hs
  · intro uri roots hroots
    exact hw.analyzeDeclarations_ne_overflow htells depth uri hroots
  · intro uri
    rw [exec_analyzeDocumentTraced_eq]
    refine hw.analyzeDeclarations_ne_overflow htells depth uri ?_
    intro root hroot
    exact ⟨uri, (List.mem_filter.mp hroot).1⟩

/-- A class that extends itself and whose range starts past the end of a line, in some far column. -/
def sampleFar (column : UInt32) : Workspace :=
  ofSnapshot {
    documents := [{
      uri := "edge"
      languageId := none
      text := "\nclass A extends A {}"
      symbols := [⟨"A", none, .classType, ⟨⟨0, column⟩, ⟨1, 20⟩⟩, ⟨⟨1, 6⟩, ⟨1, 7⟩⟩, []⟩] }]
    definitions := [⟨"edge", ⟨⟨1, 16⟩, ⟨1, 17⟩⟩, [⟨"edge", ⟨⟨0, column⟩, ⟨1, 20⟩⟩⟩]⟩] }

/-- The class of `sampleFar`: its text starts with the end of the line. -/
def sampleFarClass (column : UInt32) : Declaration :=
  ⟨"A", .classType, "edge", ⟨⟨0, column⟩, ⟨1, 20⟩⟩, "\nclass A extends A {}", []⟩

/-- A class whose range starts past the end of a line, in the last column that there is. -/
def sampleEdge : Workspace := sampleFar 4294967295

/-- The class of `sampleEdge`. -/
def sampleEdgeClass : Declaration := sampleFarClass 4294967295

theorem built_sampleFar (column : UInt32) : (sampleFar column).Built := by
  refine built_ofSnapshot ?_
  intro document hmem
  rw [List.mem_singleton.mp hmem]
  show Text.byteSize "\nclass A extends A {}".toList < 2147483648
  decide

/-- In the last column but one all messages can be written. -/
theorem sampleFar_never_overflows :
    (sampleFar 4294967294).Lists (sampleFarClass 4294967294) ∧
      (exec (analyzeDocumentTraced ⟨fun _ => true⟩ (sampleFar 4294967294).services
          (resolveWithinTraced ⟨fun _ => true⟩ (sampleFar 4294967294).services 2) "edge")
        ((sampleFar 4294967294).afterUses [(.off, .resolve 2 (sampleFarClass 4294967294))])).1 ≠
          .error .overflow := by
  have hkeys : (sampleFar 4294967294).declarationKeys = [(sampleFarClass 4294967294).key] := by
    decide +kernel
  refine ⟨⟨"edge", by decide +kernel⟩, ?_⟩
  refine ((built_sampleFar 4294967294).never_overflows.2 ⟨fun _ => true⟩ _ 2 ?_).2.2 "edge"
  intro message declaration _ hlists
  have hkey := key_mem_declarationKeys hlists
  rw [hkeys, List.mem_singleton] at hkey
  have hrange : declaration.range = ⟨⟨0, 4294967294⟩, ⟨1, 20⟩⟩ := congrArg DeclarationKey.range hkey
  rw [hrange]
  decide

/-- In the last column the warning about a class that extends itself halts the analysis. -/
theorem sampleEdge_overflows :
    sampleEdge.Built ∧ sampleEdge.Lists sampleEdgeClass ∧
      (exec (analyzeDocumentTraced ⟨fun message => message = .skipping⟩ sampleEdge.services
          (resolveWithinTraced ⟨fun message => message = .skipping⟩ sampleEdge.services
            (depthBound sampleEdge.services)) "edge") (start .zero)).1 = .error .overflow :=
  ⟨built_sampleFar _, ⟨"edge", by decide +kernel⟩, by decide +kernel⟩

end Workspace
end Lineage
