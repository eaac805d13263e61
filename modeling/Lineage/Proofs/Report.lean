import Lineage.Command.Run
import Lineage.Proofs.Analysis
import Lineage.Proofs.Classification.Paths
import Lineage.Proofs.Hierarchy.Cycles
import Lineage.Proofs.Workspace.History

set_option autoImplicit false

/-! # What a report means

A report says for each document which of its members override or implement a member of an ancestor.
`Workspace.Describes` states this in terms of the workspace alone: of the supertypes that declarations
have, the cycles that these form and the paths that lead to an ancestor. Nothing in it speaks of passes,
claims or lookups, and `run_describes` says that the command reports just that, although one builder
serves all documents. -/

namespace Lineage
namespace Workspace

variable {workspace : Workspace}

/-! ## Lenses of a declaration -/

/-- The lens on a member of `declaration` for a member of the same name in an ancestor. -/
def lensFor (config : LensConfig) (declaration ancestor : Declaration)
    (member ancestorMember : Member) : CodeLens where
  range := member.range
  command := some
    { title :=
        (if declaration.kind ≠ .interfaceType ∧
            (ancestor.kind = .interfaceType ∨ ancestorMember.hasModifier "abstract") then
          "@Implement "
        else
          "@Override ") ++ ancestor.name
      command := config.command
      arguments := some
        [.string member.uri, member.range.start.toJson,
          .array [(Location.mk ancestorMember.uri ancestorMember.range).toJson],
          .string config.peekMode.title] }

/-- The lenses of a declaration for one ancestor: one for each of the ancestor's members, in order,
    whose name a member of the declaration has. -/
def lensesBetween (config : LensConfig) (declaration ancestor : Declaration) : List CodeLens :=
  ancestor.members.filterMap fun ancestorMember =>
    (declaration.members.find? fun member => member.name = ancestorMember.name).map fun member =>
      lensFor config declaration ancestor member ancestorMember

/-- The lenses of a declaration: none if a cycle of supertypes is in reach, and else those for the end
    of every path of at least one step, in depth-first order. -/
def LensesOf (workspace : Workspace) (config : LensConfig) (declaration : Declaration)
    (lenses : List CodeLens) : Prop :=
  (workspace.ReachesCycle declaration.key ∧ lenses = []) ∨
    ¬ workspace.ReachesCycle declaration.key ∧
      ∃ paths : List (List Nat), paths.Pairwise (· < ·) ∧
        (∀ path, path ∈ paths ↔ path ≠ [] ∧ (workspace.follow declaration path).isSome) ∧
        lenses = paths.flatMap fun path =>
          (workspace.follow declaration path).toList.flatMap (lensesBetween config declaration)

/-- The lenses of a document: none if its language is known and not enabled, and else those of its
    declarations, as they are listed. -/
structure Describes (workspace : Workspace) (config : LensConfig) (document : DocumentReport) :
    Prop where
  disabled : ∀ language, workspace.languageId? document.uri = some language →
    language ∉ config.languages → document.lenses = []
  enabled : (∀ language, workspace.languageId? document.uri = some language →
      language ∈ config.languages) →
    ∃ groups, document.lenses = List.flatten groups ∧
      List.Forall₂ (workspace.LensesOf config) (workspace.declarations document.uri) groups

/-! ## From pairings to lenses -/

theorem ofPairing_eq_lensFor (config : LensConfig) (declaration ancestor : Declaration)
    (member ancestorMember : Member) :
    CodeLens.ofPairing config
        ⟨member, ancestor.key, ancestorMember, relationTo declaration ancestor ancestorMember⟩ =
      lensFor config declaration ancestor member ancestorMember := by
  have htitle : "@" ++ (relationTo declaration ancestor ancestorMember).title ++ " " =
      if declaration.kind ≠ .interfaceType ∧
          (ancestor.kind = .interfaceType ∨ ancestorMember.hasModifier "abstract") then
        "@Implement "
      else
        "@Override " := by
    rw [relationTo, Declaration.isInterface, Declaration.isInterface]
    by_cases hroot : declaration.kind = .interfaceType
    · simp [hroot, MemberRelation.title]
    · by_cases hother : ancestor.kind = .interfaceType ∨ ancestorMember.hasModifier "abstract"
      · rw [if_neg (by simpa using hroot), if_pos (by simpa using hother), if_pos ⟨hroot, hother⟩]
        rfl
      · rw [if_neg (by simpa using hroot), if_neg (by simpa using hother),
          if_neg fun h => hother h.2]
        rfl
  rw [CodeLens.ofPairing, lensFor, ← htitle]
  rfl

theorem map_ofPairing_pairingsWith (config : LensConfig) (declaration ancestor : Declaration) :
    (pairingsWith declaration ancestor).map (CodeLens.ofPairing config) =
      lensesBetween config declaration ancestor := by
  rw [pairingsWith, List.map_filterMap, lensesBetween]
  refine congrArg (List.filterMap · ancestor.members) (funext fun ancestorMember => ?_)
  rw [Option.map_map, Declaration.member?]
  refine congrArg (Option.map · _) (funext fun member => ?_)
  exact ofPairing_eq_lensFor config declaration ancestor member ancestorMember

/-- The lenses of a root, if its analysis says what the root comes to without memory. -/
theorem Built.lensesOf (hw : workspace.Built) (config : LensConfig) {declaration : Declaration}
    (hlists : workspace.Lists declaration) {analysis : RootAnalysis}
    (h : analysis.Reflects workspace.answers (Build.depthBound workspace.services) declaration) :
    workspace.LensesOf config declaration
      ((match analysis.outcome with
        | .ok pairings => pairings
        | .error _ => []).map (CodeLens.ofPairing config)) := by
  have houtcome := h.outcome_eq _ (Nat.le_refl _)
  rw [Answers.outcome] at houtcome
  cases hresult : workspace.answers.resolveAlong (Build.depthBound workspace.services) []
    declaration with
  | error halt =>
    obtain ⟨cycle, -, hcycle⟩ := hw.exists_cycle_of_error hlists
      (Nat.lt_add_of_pos_right (by decide)) hresult
    cases hanalysis : analysis.outcome with
    | error error => exact .inl ⟨hcycle.reachesCycle, rfl⟩
    | ok pairings =>
      rw [hresult, hanalysis] at houtcome
      cases houtcome
  | ok node =>
    cases hanalysis : analysis.outcome with
    | error error =>
      rw [hresult, hanalysis] at houtcome
      cases houtcome
    | ok pairings =>
      rw [hresult, hanalysis] at houtcome
      cases houtcome
      obtain ⟨paths, hsorted, hcomplete, hclassify⟩ := classify_eq hresult
      refine .inr ⟨Resolves.not_reachesCycle hw ⟨hlists, _, node, hresult⟩, paths, hsorted,
        hcomplete, ?_⟩
      dsimp only
      rw [hclassify, List.map_flatMap]
      refine List.flatMap_congr fun path _ => ?_
      rw [List.map_flatMap]
      exact List.flatMap_congr fun ancestor _ => map_ofPairing_pairingsWith config declaration ancestor

/-- The lenses of all roots of an analysis, root by root. -/
theorem Built.exists_groups (hw : workspace.Built) (config : LensConfig)
    {declarations : List Declaration} {analyses : List RootAnalysis}
    (hlists : ∀ declaration ∈ declarations, workspace.Lists declaration)
    (h : List.Forall₂ (RootAnalysis.Reflects workspace.answers
      (Build.depthBound workspace.services)) declarations analyses)
    (uri : String) :
    ∃ groups, (DocumentAnalysis.pairings ⟨uri, analyses⟩).map (CodeLens.ofPairing config) =
        List.flatten groups ∧
      List.Forall₂ (workspace.LensesOf config) declarations groups := by
  induction h with
  | nil => exact ⟨[], rfl, .nil⟩
  | cons hfirst _ ih =>
    have hlenses := hw.lensesOf config (hlists _ List.mem_cons_self) hfirst
    obtain ⟨groups, hgroups, hall⟩ := ih fun other hother =>
      hlists other (List.mem_cons_of_mem _ hother)
    refine ⟨_ :: groups, ?_, .cons hlenses hall⟩
    rw [List.flatten_cons, ← hgroups, ← List.map_append]
    rfl

/-! ## One document after the other -/

theorem exec_analyzeDocument {uri : String}
    (htypes : ∀ declaration ∈ workspace.declarations uri, declaration.kind.isType = true)
    (resolve : Declaration → Build ServiceCounts TypeNode) (s : BuildState ServiceCounts) :
    ∃ s', exec (Build.analyzeDocument workspace.services resolve uri) s =
      exec (Build.analyzeDeclarations resolve uri (workspace.declarations uri)) s' := by
  have hfilter : (workspace.declarations uri).filter (fun declaration => declaration.kind.isType) =
      workspace.declarations uri := List.filter_eq_self.mpr htypes
  refine ⟨(exec (Build.lookup (Lookup.call (workspace.services.listDeclarations uri))) s).2, ?_⟩
  rw [Build.analyzeDocument, Build.analyzeDocumentTraced, exec_bind]
  show exec (Build.analyzeDeclarations resolve uri ((workspace.declarations uri).filter _)) _ = _
  rw [hfilter]
  rfl

/-- The lenses of a document whose language is enabled are those of its declarations, whatever the
    builder did before. -/
theorem Built.exec_provideLenses (hw : workspace.Built) (hnodup : workspace.declarationKeys.Nodup)
    {config : LensConfig} {uri : String}
    (hsupports : config.supports (workspace.languageId? uri) = true)
    (s : BuildState ServiceCounts) :
    ∃ groups s', exec (Build.provideLenses workspace.services
        (Build.resolve workspace.services) config uri) s = (.ok (List.flatten groups), s') ∧
      List.Forall₂ (workspace.LensesOf config) (workspace.declarations uri) groups := by
  have hlists : ∀ declaration ∈ workspace.declarations uri, workspace.Lists declaration :=
    fun _ hmem => ⟨uri, hmem⟩
  obtain ⟨s₁, hanalyze⟩ := exec_analyzeDocument (fun declaration hmem =>
    hw.isType (hlists declaration hmem)) (Build.resolve workspace.services) s
  have hcon : ∀ root ∈ workspace.declarations uri, workspace.Lists root ∧ ∃ keys,
      root.key ∈ keys ∧ keys.length ≤ workspace.services.declarationKeys.length + 1 ∧
      Consistent workspace.answers .whole workspace.Lists keys := by
    intro root hroot
    exact ⟨hlists root hroot, workspace.declarationKeys,
      key_mem_declarationKeys (hlists root hroot), Nat.le_succ _, hw.consistent_whole hnodup⟩
  obtain ⟨analyses, s₂, hanalyses, hall⟩ :=
    Build.exec_analyzeDeclarations workspace.answersWith hcon uri s₁
  obtain ⟨groups, hgroups, hlenses⟩ := hw.exists_groups config hlists hall uri
  refine ⟨groups, s₂, ?_, hlenses⟩
  have hsupports' : config.supports (workspace.services.languageId? uri) = true := hsupports
  rw [Build.provideLenses, if_pos hsupports', exec_bind, hanalyze, hanalyses, ← hgroups]
  rfl

theorem exec_provideLenses_of_not_supports {config : LensConfig} {uri : String}
    (hsupports : config.supports (workspace.languageId? uri) = false)
    (s : BuildState ServiceCounts) :
    exec (Build.provideLenses workspace.services (Build.resolve workspace.services) config uri) s =
      (.ok [], s) := by
  have hsupports' : ¬ config.supports (workspace.services.languageId? uri) = true := by
    rw [Bool.not_eq_true]
    exact hsupports
  rw [Build.provideLenses, if_neg hsupports']
  rfl

theorem exec_reportDocument {services : Services ServiceCounts} {config : LensConfig} {uri : String}
    {s s' : BuildState ServiceCounts} {lenses : List CodeLens}
    (h : exec (Build.provideLenses services (Build.resolve services) config uri) s =
      (.ok lenses, s')) :
    exec (Report.reportDocument services config uri) s = (.ok ⟨uri, lenses⟩, s') := by
  have hrun : exec (Report.reportDocument services config uri) s =
      match exec (Build.provideLenses services (Build.resolve services) config uri) s with
      | (.ok lenses, state) => (.ok ⟨uri, lenses⟩, state)
      | (.error halt, state) => (.error (.analysisHalted uri halt), state) := rfl
  rw [hrun, h]

/-- The report on a document describes it, whatever the builder did before. -/
theorem Built.exec_reportDocument (hw : workspace.Built)
    (hnodup : workspace.declarationKeys.Nodup) (config : LensConfig) (uri : String)
    (s : BuildState ServiceCounts) :
    ∃ document s', exec (Report.reportDocument workspace.services config uri) s =
        (.ok document, s') ∧
      document.uri = uri ∧ workspace.Describes config document := by
  have hsupports_iff : config.supports (workspace.languageId? uri) = true ↔
      ∀ language, workspace.languageId? uri = some language → language ∈ config.languages := by
    cases workspace.languageId? uri <;> simp [LensConfig.supports]
  cases hsupports : config.supports (workspace.languageId? uri) with
  | false =>
    refine ⟨⟨uri, []⟩, s, Workspace.exec_reportDocument
      (exec_provideLenses_of_not_supports hsupports s), rfl, fun _ _ _ => rfl, fun henabled => ?_⟩
    rw [hsupports_iff.mpr henabled] at hsupports
    cases hsupports
  | true =>
    obtain ⟨groups, s', hexec, hall⟩ := hw.exec_provideLenses hnodup hsupports s
    refine ⟨⟨uri, groups.flatten⟩, s', Workspace.exec_reportDocument hexec, rfl, ?_,
      fun _ => ⟨groups, rfl, hall⟩⟩
    intro language hlanguage hmem
    exact absurd (hsupports_iff.mp hsupports language hlanguage) hmem

theorem Built.exec_mapM_reportDocument (hw : workspace.Built)
    (hnodup : workspace.declarationKeys.Nodup) (config : LensConfig) (uris : List String)
    (s : BuildState ServiceCounts) :
    ∃ documents s', exec (uris.mapM (Report.reportDocument workspace.services config)) s =
        (.ok documents, s') ∧
      documents.map DocumentReport.uri = uris ∧
      ∀ document ∈ documents, workspace.Describes config document := by
  induction uris generalizing s with
  | nil => exact ⟨[], s, rfl, rfl, by simp⟩
  | cons uri rest ih =>
    obtain ⟨document, s₁, hfirst, huri, hdescribes⟩ :=
      hw.exec_reportDocument hnodup config uri s
    obtain ⟨documents, s₂, hrest, huris, hall⟩ := ih s₁
    refine ⟨document :: documents, s₂, ?_, ?_, ?_⟩
    · rw [exec_mapM_cons, hfirst]
      dsimp only
      rw [hrest]
    · rw [List.map_cons, huri, huris]
    · intro other hother
      rcases List.mem_cons.mp hother with rfl | hmem
      · exact hdescribes
      · exact hall other hmem

/-- The report on some documents describes each of them. -/
theorem Built.exists_report (hw : workspace.Built) (hnodup : workspace.declarationKeys.Nodup)
    (config : LensConfig) (uris : List String) :
    ∃ report, Report.ofWorkspace workspace config uris = .ok report ∧
      report.documents.map DocumentReport.uri = uris ∧
      ∀ document ∈ report.documents, workspace.Describes config document := by
  obtain ⟨documents, s', hexec, huris, hall⟩ :=
    hw.exec_mapM_reportDocument hnodup config uris (Build.start .zero)
  refine ⟨⟨documents⟩, ?_, huris, hall⟩
  have hreport : Report.ofWorkspace workspace config uris =
      (exec (uris.mapM (Report.reportDocument workspace.services config))
        (Build.start .zero)).1.map Report.mk := rfl
  rw [hreport, hexec]
  rfl

/-! ## The command -/

theorem selectDocuments_ofSnapshot {arguments : Arguments} {snapshot : Snapshot}
    (h : ∀ uri ∈ arguments.documents, uri ∈ snapshot.documents.map SourceDocument.uri) :
    arguments.selectDocuments (ofSnapshot snapshot) =
      .ok (if arguments.documents = [] then
          (snapshot.documents.map SourceDocument.uri).eraseDups
        else
          arguments.documents) := by
  rw [Arguments.selectDocuments, uris_ofSnapshot]
  split
  · next hnil => rw [if_pos hnil]
  · next hne =>
    have hfind : arguments.documents.find? (fun uri =>
        !((snapshot.documents.map SourceDocument.uri).eraseDups).contains uri) = none := by
      rw [List.find?_eq_none]
      intro uri hmem
      simpa using h uri hmem
    rw [hfind, if_neg hne]

/-- With files that can be read and known documents, the command reports on its selection. -/
theorem run_eq_ofWorkspace (files : String → FileContents) (arguments : Arguments)
    {snapshot : Snapshot} {config : LensConfig}
    (hsnapshot : Arguments.loadSnapshot files arguments.snapshot = .ok snapshot)
    (hconfig : arguments.loadConfig files = .ok config)
    (hdocuments : ∀ uri ∈ arguments.documents, uri ∈ snapshot.documents.map SourceDocument.uri) :
    arguments.run files = Report.ofWorkspace (ofSnapshot snapshot) config
      (if arguments.documents = [] then
          (snapshot.documents.map SourceDocument.uri).eraseDups
        else
          arguments.documents) := by
  rw [Arguments.run, hsnapshot]
  show (arguments.loadConfig files >>= _) = _
  rw [hconfig]
  show (arguments.selectDocuments (ofSnapshot snapshot) >>= _) = _
  rw [selectDocuments_ofSnapshot hdocuments]
  rfl

/-- **What the command reports.** With a snapshot of small texts whose types have different keys, the
    command succeeds for all documents of the snapshot. It reports on the documents asked for, or on
    all in the order in which the snapshot first names them, and describes each. -/
theorem run_describes (files : String → FileContents) (arguments : Arguments) {snapshot : Snapshot}
    {config : LensConfig}
    (hsnapshot : Arguments.loadSnapshot files arguments.snapshot = .ok snapshot)
    (hconfig : arguments.loadConfig files = .ok config)
    (hsize : ∀ document ∈ snapshot.documents, Text.byteSize document.text.toList < 2147483648)
    (hnodup : (ofSnapshot snapshot).declarationKeys.Nodup)
    (hdocuments : ∀ uri ∈ arguments.documents, uri ∈ snapshot.documents.map SourceDocument.uri) :
    ∃ report, arguments.run files = .ok report ∧
      report.documents.map DocumentReport.uri =
        (if arguments.documents = [] then
          (snapshot.documents.map SourceDocument.uri).eraseDups
        else
          arguments.documents) ∧
      ∀ document ∈ report.documents, (ofSnapshot snapshot).Describes config document := by
  rw [run_eq_ofWorkspace files arguments hsnapshot hconfig hdocuments]
  exact (built_ofSnapshot hsize).exists_report hnodup config _

/-- A snapshot in which a class extends another one and has a method of its name, as a file. -/
def sampleFile : String :=
  "[[[\"d\",null,\"class A extends B m class B m\"," ++
    "[[\"A\",null,5,[[0,0],[0,19]],[[0,6],[0,7]],[[\"m\",null,6,[[0,18],[0,19]],[[0,18],[0,19]],[]]]]," ++
    "[\"B\",null,5,[[0,20],[0,29]],[[0,26],[0,27]],[[\"m\",null,6,[[0,28],[0,29]],[[0,28],[0,29]],[]]]]]]]," ++
    "[[\"d\",[[0,16],[0,17]],[[\"d\",[[0,20],[0,29]]]]]]]"

/-- A folder with this file alone. -/
def sampleFiles (path : String) : FileContents :=
  if path = "snapshot.json" then .ok sampleFile.toByteArray else .error .missing

theorem text_toByteArray (text : String) :
    FileContents.text (.ok text.toByteArray) = .ok text := by
  have hread : String.fromUTF8? text.toByteArray = some text := dif_pos text.isValidUTF8
  rw [FileContents.text]
  simp [hread, bind, Except.bind, pure, Except.pure]

theorem loadSnapshot_eq {files : String → FileContents} {path text : String} {snapshot : Snapshot}
    (hfile : (files path).text = .ok text) (hread : Snapshot.ofText text = .ok snapshot) :
    Arguments.loadSnapshot files path = .ok snapshot := by
  rw [Arguments.loadSnapshot, hfile]
  show (Snapshot.ofText text).mapError _ = _
  rw [hread]
  rfl

theorem run_sampleFiles_describes :
    ∃ snapshot report,
      Arguments.loadSnapshot sampleFiles "snapshot.json" = .ok snapshot ∧
        Arguments.run sampleFiles ⟨"snapshot.json", [], none, none, .text⟩ = .ok report ∧
        report.documents.map DocumentReport.uri = ["d"] ∧
        (∀ document ∈ report.documents,
          (ofSnapshot snapshot).Describes LensConfig.standard document) ∧
        (report.documents.flatMap DocumentReport.lenses).map CodeLens.title = ["@Override B"] := by
  have hread : (match Snapshot.ofText sampleFile with
      | .ok snapshot => decide ((∀ document ∈ snapshot.documents,
          Text.byteSize document.text.toList < 2147483648) ∧
          (ofSnapshot snapshot).declarationKeys.Nodup ∧
          snapshot.documents.map SourceDocument.uri = ["d"] ∧
          (Report.ofWorkspace (ofSnapshot snapshot) .standard ["d"]).toOption.map (fun report =>
            (report.documents.flatMap DocumentReport.lenses).map CodeLens.title) =
            some ["@Override B"])
      | .error _ => false) = true := by decide +kernel
  split at hread
  · next snapshot hsnapshot =>
    obtain ⟨hsize, hnodup, huris, htitles⟩ := of_decide_eq_true hread
    have hload : Arguments.loadSnapshot sampleFiles "snapshot.json" = .ok snapshot := by
      refine loadSnapshot_eq ?_ hsnapshot
      rw [sampleFiles, if_pos rfl, text_toByteArray]
    obtain ⟨report, hrun, hdocuments, hall⟩ := run_describes sampleFiles
      ⟨"snapshot.json", [], none, none, .text⟩ hload rfl hsize hnodup (by rintro _ ⟨⟩)
    rw [huris] at hdocuments
    refine ⟨snapshot, report, hload, hrun, hdocuments, hall, ?_⟩
    have hreport : Report.ofWorkspace (ofSnapshot snapshot) .standard ["d"] = .ok report := by
      rw [← hrun, run_eq_ofWorkspace sampleFiles ⟨"snapshot.json", [], none, none, .text⟩ hload rfl
        (by rintro _ ⟨⟩), huris]
      rfl
    rw [hreport] at htitles
    exact Option.some.inj htitles
  · cases hread

end Workspace
end Lineage
