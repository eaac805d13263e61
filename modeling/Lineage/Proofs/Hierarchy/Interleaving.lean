import Lineage.Proofs.Claim.Dependencies
import Lineage.Proofs.Hierarchy.Jobs

set_option autoImplicit false

/-! # What interleaved resolutions come to

Over services that answer later, with answers that depend on the question alone, a resolution still
comes to what resolution without memory comes to: to its node if that succeeds, and else to a failure.
What can differ is which failure it is.

The state of a run holds only what resolution without memory bears out (`Upholds`). One round keeps that,
and it keeps every job at what it serves (`move_serves`), whatever other jobs have done to the state
meanwhile; so do any number of rounds (`moveUntilDone_serves`).

Where the root is resolvable all its supertypes are, and claims made for them follow dependencies that
only ever lead down (`Outranks`). So none is refused, and no run fails. -/

namespace Lineage

open ClaimTable (DependsOn Reaches)

variable {σ : Type} {services : Services σ} {answers : Answers}
  {view : Declaration → Declaration} {known : Declaration → Prop} {keys : List DeclarationKey}
  {fails : Prop}

/-! ## States -/

namespace Build

/-- A builder that keeps nothing but what resolution without memory bears out: answers, nodes that
    unfold, and dependencies that lead down from what resolves. -/
structure Upholds (answers : Answers) (view : Declaration → Declaration) (known : Declaration → Prop)
    (s : BuildState σ) : Prop where
  memo : MemoAgrees answers s.lookups.memo
  nodes : ∀ {key node}, s.claims.nodes.get? key = some node →
    node.key = key ∧ Unfolds answers view known node
  ranked : ∀ {upper lower}, DependsOn s.claims.inFlight upper lower →
    Resolvable answers view known upper → Outranks answers view known upper lower

theorem upholds_beginPass (s : BuildState σ) : Upholds answers view known (beginPass s) where
  memo := by rintro _ _ ⟨⟩
  nodes := by rintro _ _ ⟨⟩
  ranked := by rintro _ _ ⟨_, ⟨⟩, _⟩

namespace Upholds

variable {s : BuildState σ} {key : DeclarationKey} {requester : Option DeclarationKey}

theorem published (h : Upholds answers view known s) {node? : Option TypeNode}
    (hnode : ∀ node, node? = some node → node.key = key ∧ Unfolds answers view known node) :
    Upholds answers view known (published key node? s) where
  memo := h.memo
  nodes := by
    intro other node hother
    rw [Build.published, ClaimTable.get?_nodes_publish] at hother
    split at hother
    · next heq =>
      subst heq
      cases node? with
      | none => exact h.nodes hother
      | some new => exact hnode node hother
    · exact h.nodes hother
  ranked hdepends := h.ranked (ClaimTable.dependsOn_publish_iff.mp hdepends).2.2

/-- Dependencies lead down from what resolves. -/
theorem outranks_of_reaches (hcon : Consistent answers view known keys)
    (h : Upholds answers view known s) {start goal : DeclarationKey}
    (hreaches : Reaches s.claims.inFlight start goal)
    (hresolvable : Resolvable answers view known start) :
    start = goal ∨ Outranks answers view known start goal := by
  induction hreaches with
  | refl => exact .inl rfl
  | tail _ hstep ih =>
    rcases ih with rfl | houtranks
    · exact .inr (h.ranked hstep hresolvable)
    · exact .inr (houtranks.trans hcon (h.ranked hstep houtranks.resolvable))

/-- A claim is refused only to who does not resolve. -/
theorem refused (hcon : Consistent answers view known keys) (h : Upholds answers view known s)
    (hranks : RanksFor answers view known requester key) {cycle : List DeclarationKey}
    (hclaim : s.claims.claim key requester = .error cycle) :
    ∃ holder ∈ requester, ¬ Resolvable answers view known holder := by
  obtain ⟨holder, hholder, hreaches⟩ := ClaimTable.closes_of_claim_error hclaim
  refine ⟨holder, hholder, fun hresolvable => ?_⟩
  have houtranks := hranks holder hholder hresolvable
  rcases h.outranks_of_reaches hcon hreaches houtranks.resolvable with rfl | hback
  · exact Outranks.irrefl hcon houtranks
  · exact Outranks.irrefl hcon (houtranks.trans hcon hback)

theorem claimed (h : Upholds answers view known s)
    (hranks : RanksFor answers view known requester key) {answer : Claim TypeNode}
    {claims : ClaimTable TypeNode} (hclaim : s.claims.claim key requester = .ok (answer, claims)) :
    Upholds answers view known { s with claims := claims } := by
  have hnoted : ∀ {upper lower},
      DependsOn (s.claims.noteRequest key requester).inFlight upper lower →
      Resolvable answers view known upper → Outranks answers view known upper lower := by
    intro upper lower hdepends hresolvable
    rcases ClaimTable.dependsOn_noteRequest_iff.mp hdepends with hold | ⟨hupper, -, rfl⟩
    · exact h.ranked hold hresolvable
    · exact hranks upper hupper hresolvable
  cases ClaimTable.grants_of_claim hclaim with
  | ready => exact h
  | wait =>
    exact ⟨h.memo, fun hnode => h.nodes (by rwa [ClaimTable.nodes_noteRequest] at hnode), hnoted⟩
  | owner =>
    refine ⟨h.memo, fun hnode => h.nodes ?_, fun hdepends =>
      hnoted (ClaimTable.dependsOn_takeOff_iff.mp hdepends).2⟩
    rwa [ClaimTable.nodes_takeOff, ClaimTable.nodes_noteRequest] at hnode

end Upholds
end Build

/-- A state in the middle of a round; there are failures only if the whole run fails. -/
structure RoundState.Upholds (answers : Answers) (view : Declaration → Declaration)
    (known : Declaration → Prop) (fails : Prop) (s : RoundState σ) : Prop where
  build : Build.Upholds answers view known s.build
  failures : ∀ {ticket error}, s.failures.get? ticket = some error → fails

namespace RoundState.Upholds

variable {s : RoundState σ} {key : DeclarationKey}

theorem settle_ok (h : s.Upholds answers view known fails) {node : TypeNode} (hkey : node.key = key)
    (hnode : Unfolds answers view known node) :
    (s.settle key (.ok node)).Upholds answers view known fails where
  build := h.build.published (by rintro _ ⟨⟩; exact ⟨hkey, hnode⟩)
  failures := h.failures

theorem settle_error (h : s.Upholds answers view known fails) (hfails : fails) (key : DeclarationKey)
    (error : ResolveError) : (s.settle key (.error error)).Upholds answers view known fails where
  build := h.build.published (by rintro _ ⟨⟩)
  failures _ := hfails

theorem giveUp (h : s.Upholds answers view known fails) (hfails : fails)
    (references : ReferencesJob) : (s.giveUp references).Upholds answers view known fails :=
  List.foldlRecOn _ _ ⟨h.build, h.failures⟩ fun _ hs key _ => hs.settle_error hfails key _

end RoundState.Upholds

/-! ## One round -/

namespace Round

variable {α β γ : Type}

/-- A part of a round that finds a state that upholds leaves one that does, and answers with what
    satisfies `P`. What it is stopped by is no failure. -/
abbrev Maintains (answers : Answers) (view : Declaration → Declaration) (known : Declaration → Prop)
    (fails : Prop) (action : Round σ α) (P : α → Prop) : Prop :=
  Ensures (RoundState.Upholds answers view known fails) action P
    fun halt => ∀ error, halt ≠ .failed error

theorem exec_lift (action : Build σ α) (s : RoundState σ) :
    exec (lift action) s =
      ((exec action s.build).1, { s with build := (exec action s.build).2 }) := rfl

theorem exec_attempt (action : Build σ α) (s : RoundState σ) :
    exec (attempt action) s =
      (match (exec action s.build).1 with
        | .ok a => .ok (.ok a)
        | .error (.failed error) => .ok (.error error)
        | .error halt => .error halt,
        { s with build := (exec action s.build).2 }) := by
  rw [attempt, exec_bind, exec_lift, Build.exec_outcome]
  dsimp only
  rcases exec action s.build with ⟨halt | a, build⟩
  · cases halt <;> rfl
  · rfl

theorem attempt_maintains {action : Build σ α} {P : Except ResolveError α → Prop}
    (hkept : ∀ s, Build.Upholds answers view known s →
      Build.Upholds answers view known (exec action s).2)
    (hok : ∀ s a, Build.Upholds answers view known s → (exec action s).1 = .ok a → P (.ok a))
    (herror : ∀ s error, Build.Upholds answers view known s →
      (exec action s).1 = .error (.failed error) → P (.error error)) :
    Maintains answers view known fails (attempt action) P := by
  intro s hs
  rw [exec_attempt]
  refine ⟨⟨hkept s.build hs.build, hs.failures⟩, ?_⟩
  dsimp only
  cases hout : (exec action s.build).1 with
  | ok a => exact hok s.build a hs.build hout
  | error halt =>
    cases halt with
    | failed error => exact herror s.build error hs.build hout
    | _ => simp

/-- What every job keeps up with its target, jobs moved on together keep up with theirs. -/
theorem moveAll_ensures {I : RoundState σ → Prop} {E : Halt → Prop} {R : β → γ → Prop}
    {joining : Joining} {result? : β → Option (Except ResolveError α)} {move : β → Round σ β}
    {settled : Bool} {jobs : List β} {targets : List γ}
    (hmove : ∀ job, ∀ target ∈ targets, R job target → Ensures I (move job) (R · target) E)
    (hjobs : List.Forall₂ R jobs targets) :
    Ensures I (moveAll joining result? move settled jobs) (List.Forall₂ R · targets) E := by
  induction hjobs generalizing settled with
  | nil => exact .pure .nil
  | @cons job target jobs targets hjob hjobs ih =>
    have hrest : ∀ settled, Ensures I (moveAll joining result? move settled jobs)
        (List.Forall₂ R · targets) E :=
      fun settled => ih fun job target htarget => hmove job target (List.mem_cons_of_mem _ htarget)
    rw [moveAll]
    refine .bind (hmove job target List.mem_cons_self hjob) fun job' hjob' => ?_
    split
    · exact .bind (hrest settled) fun jobs' hjobs' => .pure (.cons hjob' hjobs')
    · split
      · exact .pure (.cons hjob' hjobs)
      · exact .bind (hrest settled) fun jobs' hjobs' => .pure (.cons hjob' hjobs')
    · exact .bind (hrest false) fun jobs' hjobs' => .pure (.cons hjob' hjobs')

/-! ### Lookups -/

/-- A lookup that gives one of the answers gives it in a round as well. -/
theorem attempt_lookup_maintains {action : Lookup σ α} {answer : Except ServiceFailure α}
    (hagrees : ∀ s : LookupState σ, MemoAgrees answers s.memo →
      (exec action s).1 = answer ∧ MemoAgrees answers (exec action s).2.memo) :
    Maintains answers view known fails (attempt (Build.lookup action))
      fun result => result = answer.mapError ResolveError.service := by
  refine attempt_maintains (fun s hs => ⟨(hagrees s.lookups hs.memo).2, hs.nodes, hs.ranked⟩) ?_ ?_
  · intro s a hs ha
    rw [Build.exec_lookup, (hagrees s.lookups hs.memo).1] at ha
    cases answer with
    | error failure => cases ha
    | ok a' =>
      cases ha
      rfl
  · intro s error hs herror
    rw [Build.exec_lookup, (hagrees s.lookups hs.memo).1] at herror
    cases answer with
    | error failure =>
      cases herror
      rfl
    | ok a => cases herror

theorem find_serves (hanswers : services.AnswersWith answers) {job : FindJob} {location : Location}
    (hjob : job.Serves answers location) :
    Maintains answers view known fails (find services job)
      (FindJob.Serves answers · location) := by
  cases job with
  | waiting place =>
    obtain rfl : place = location := hjob
    rw [find]
    refine .bind .get fun s hs => ?_
    split
    · next found hfound => exact .pure (hs.build.memo place found hfound)
    · refine .bind .get fun s hs => ?_
      split
      · exact .pure rfl
      · exact .bind (.modify fun s hs => ⟨hs.build, hs.failures⟩) fun _ _ => .pure rfl
  | asked place =>
    obtain rfl : place = location := hjob
    rw [find]
    refine .bind (attempt_lookup_maintains (Lookup.declarationAt_agrees hanswers place)) ?_
    intro found hfound
    refine .bind (.modify fun s hs => ⟨hs.build, hs.failures⟩) fun _ _ => .pure ?_
    rw [hfound]
    cases hanswer : answers.findDeclaration place.uri place.range with
    | error failure => exact ⟨failure, hanswer⟩
    | ok found => exact hanswer
  | done result => exact .pure hjob

theorem findAll_serves (hanswers : services.AnswersWith answers) {uri : String} {position : Position}
    {locations : List Location} (hlocations : answers.resolveDefinitions uri position = .ok locations)
    {finds : List FindJob} (hfinds : List.Forall₂ (FindJob.Serves answers) finds locations) :
    Maintains answers view known fails (findAll services finds)
      (LookupJob.Serves answers uri · position) := by
  rw [findAll]
  refine .bind (moveAll_ensures (fun _ _ _ hjob => find_serves hanswers hjob) hfinds) ?_
  intro finds' hfinds'
  have hjob : (LookupJob.finding finds').Serves answers uri position :=
    ⟨locations, hlocations, hfinds'⟩
  dsimp only
  split
  · next herror =>
    exact .bind (.modify fun s hs => ⟨hs.build, hs.failures⟩) fun _ _ =>
      .pure (hjob.of_error herror)
  · exact .pure hjob

theorem look_serves (hanswers : services.AnswersWith answers) {job : LookupJob} {uri : String}
    {position : Position} (hjob : job.Serves answers uri position) :
    Maintains answers view known fails (look services uri job)
      (LookupJob.Serves answers uri · position) := by
  cases job with
  | fresh place => exact .pure hjob
  | asked place =>
    obtain rfl : place = position := hjob
    rw [look]
    refine .bind (attempt_lookup_maintains fun s hs =>
      ⟨hanswers.resolveDefinitions uri place s.world, hs⟩) ?_
    rintro _ rfl
    cases hlocations : answers.resolveDefinitions uri place with
    | error failure =>
      refine .pure ⟨failure, ?_⟩
      rw [Answers.definitionsAt, hlocations]
      rfl
    | ok locations =>
      refine findAll_serves hanswers hlocations ?_
      rw [List.forall₂_map_left_iff, List.forall₂_same]
      exact fun _ _ => rfl
  | finding finds =>
    obtain ⟨locations, hlocations, hfinds⟩ := hjob
    exact findAll_serves hanswers hlocations hfinds
  | failed error => exact .pure hjob

/-! ### Builds -/

section Builds

variable {move : ResolveJob → Round σ ResolveJob} {owner : Declaration}

theorem resolveAll_serves {positions : List Position} {targets : List Declaration}
    (htargets : answers.targets owner.uri positions = .ok targets)
    (hmove : ∀ job, ∀ target ∈ targets, job.Serves answers view known fails target →
      Maintains answers view known fails (move job)
        (ResolveJob.Serves answers view known fails · target))
    {jobs : List ResolveJob}
    (hjobs : List.Forall₂ (ResolveJob.Serves answers view known fails) jobs targets) :
    Maintains answers view known fails (resolveAll move jobs)
      (ReferencesJob.Serves answers view known fails · owner positions) := by
  refine .bind (moveAll_ensures hmove hjobs) fun jobs' hjobs' => .pure ?_
  rw [ReferencesJob.Serves]
  exact ⟨targets, htargets, serveAll_iff_forall₂.mpr hjobs'⟩

/-- The resolutions of some targets serve them when they are begun. -/
theorem forall₂_fresh_serves (howner : Resolvable answers view known owner.key ∨ fails)
    {targets : List Declaration}
    (hranks : ∀ target ∈ targets, RanksFor answers view known (some owner.key) target.key) :
    List.Forall₂ (ResolveJob.Serves answers view known fails)
      (targets.map (.fresh (some owner.key))) targets := by
  rw [List.forall₂_map_left_iff, List.forall₂_same]
  intro target htarget
  rw [ResolveJob.Serves]
  refine ⟨rfl, ?_, hranks target htarget⟩
  rintro _ ⟨⟩
  exact howner

/-- References keep up with their positions if the resolutions of their targets do. -/
theorem moveReferences_serves (hanswers : services.AnswersWith answers) {positions : List Position}
    (howner : Resolvable answers view known owner.key ∨ fails)
    (hranks : ∀ targets, answers.targets owner.uri positions = .ok targets → ∀ target ∈ targets,
      RanksFor answers view known (some owner.key) target.key)
    (hmove : ∀ targets, answers.targets owner.uri positions = .ok targets →
      ∀ job, ∀ target ∈ targets, job.Serves answers view known fails target →
        Maintains answers view known fails (move job)
          (ResolveJob.Serves answers view known fails · target))
    {job : ReferencesJob} (hjob : job.Serves answers view known fails owner positions) :
    Maintains answers view known fails (moveReferences services move owner job)
      (ReferencesJob.Serves answers view known fails · owner positions) := by
  cases job with
  | looking lookups =>
    rw [ReferencesJob.Serves] at hjob
    rw [moveReferences]
    refine .bind (moveAll_ensures (fun _ _ _ hjob => look_serves hanswers hjob) hjob) ?_
    intro lookups' hlookups
    split
    · next found hfound =>
      have htargets := ReferencesJob.Serves.targets_of_lookups hlookups hfound
      exact resolveAll_serves htargets (hmove _ htargets)
        (forall₂_fresh_serves howner (hranks _ htargets))
    · refine .pure ?_
      rw [ReferencesJob.Serves]
      exact hlookups
  | resolving jobs =>
    rw [ReferencesJob.Serves] at hjob
    obtain ⟨targets, htargets, hjobs⟩ := hjob
    exact resolveAll_serves htargets (hmove targets htargets) (serveAll_iff_forall₂.mp hjobs)

theorem succeed_serves (hcon : Consistent answers view known keys) (hknown : known owner)
    {classes interfaces : List Declaration} (hrefers : answers.Refers owner classes interfaces)
    {superClasses superInterfaces : List TypeNode}
    (hclasses : List.Forall₂ (fun target super =>
      super.key = target.key ∧ Unfolds answers view known super) classes superClasses)
    (hinterfaces : List.Forall₂ (fun target super =>
      super.key = target.key ∧ Unfolds answers view known super) interfaces superInterfaces) :
    Maintains answers view known fails
      (succeed owner superClasses superInterfaces : Round σ ResolveJob)
      (ResolveJob.Serves answers view known fails · owner) := by
  have hnode : Maintains answers view known fails
      (lift (Build.newNode owner superClasses superInterfaces) : Round σ TypeNode)
      fun node => node.key = owner.key ∧ Unfolds answers view known node := by
    refine fun s hs => ⟨⟨⟨hs.build.memo, hs.build.nodes, hs.build.ranked⟩, hs.failures⟩, ?_⟩
    exact ⟨rfl, .of_refers hcon hknown hrefers hclasses hinterfaces⟩
  refine .bind hnode fun node hnode =>
    .bind (.modify fun s hs => hs.settle_ok hnode.1 hnode.2) fun _ _ => .pure ?_
  rw [ResolveJob.Serves]
  exact hnode

theorem fail_serves (hfails : fails) (superClasses superInterfaces : ReferencesJob)
    (error : ResolveError) :
    Maintains answers view known fails
      (fail owner superClasses superInterfaces error : Round σ ResolveJob)
      (ResolveJob.Serves answers view known fails · owner) := by
  refine .bind (.modify fun s hs => ?_) fun _ _ => .pure ?_
  · exact ((hs.giveUp hfails superClasses).giveUp hfails superInterfaces).settle_error hfails _ error
  · rw [ResolveJob.Serves]
    exact hfails

section Owned

variable (hanswers : services.AnswersWith answers) (hcon : Consistent answers view known keys)
  (hknown : known owner) (howner : Resolvable answers view known owner.key ∨ fails)
  (hmove : ∀ job target, known target → Resolvable answers view known target.key ∨ fails →
    job.Serves answers view known fails target →
      Maintains answers view known fails (move job)
        (ResolveJob.Serves answers view known fails · target))
  {kind : TypeKind} {references : References} (hkind : owner.typeKind = .ok kind)
  (hreferences : owner.references? kind = some references)

include hcon hknown hkind hreferences

/-- What a declaration refers to ranks below it, if it resolves. -/
theorem ranksFor_of_mem_targets {positions : List Position}
    (hpositions : positions ∈ [references.superClasses, references.superInterfaces])
    {targets : List Declaration} (htargets : answers.targets owner.uri positions = .ok targets) :
    ∀ target ∈ targets, RanksFor answers view known (some owner.key) target.key := by
  rintro target htarget _ ⟨⟩ hresolvable
  obtain ⟨targets', htargets', houtranks⟩ :=
    hresolvable.targets hcon hknown hkind hreferences hpositions
  obtain rfl : targets = targets' := Except.ok.inj (htargets.symm.trans htargets')
  exact houtranks target htarget

include hanswers howner hmove

/-- The references in the head of a declaration keep up with their positions, super classes and super
    interfaces alike. -/
theorem moveReferences_serves_of_mem {positions : List Position}
    (hpositions : positions ∈ [references.superClasses, references.superInterfaces])
    {job : ReferencesJob} (hjob : job.Serves answers view known fails owner positions) :
    Maintains answers view known fails (moveReferences services move owner job)
      (ReferencesJob.Serves answers view known fails · owner positions) := by
  have hranks := fun targets (htargets : answers.targets owner.uri positions = .ok targets) =>
    ranksFor_of_mem_targets hcon hknown hkind hreferences hpositions htargets
  refine moveReferences_serves hanswers howner hranks ?_ hjob
  intro targets htargets job target htarget
  refine hmove job target (hcon.known_of_mem_targets htargets htarget).1 ?_
  exact howner.imp_left fun hresolvable =>
    (hranks targets htargets target htarget _ rfl hresolvable).resolvable

/-- A build keeps up with its declaration if the resolutions of supertypes keep up with theirs. -/
theorem moveBuild_serves {superClasses superInterfaces : ReferencesJob}
    (hclasses : superClasses.Serves answers view known fails owner references.superClasses)
    (hinterfaces :
      superInterfaces.Serves answers view known fails owner references.superInterfaces) :
    Maintains answers view known fails
      (moveBuild services move owner superClasses superInterfaces)
      (ResolveJob.Serves answers view known fails · owner) := by
  have hmoved : ∀ positions ∈ [references.superClasses, references.superInterfaces],
      ∀ job, job.Serves answers view known fails owner positions →
        Maintains answers view known fails
          (moveReferences services move owner job)
          (ReferencesJob.Serves answers view known fails · owner positions) :=
    fun _ hpositions _ hjob => moveReferences_serves_of_mem hanswers hcon hknown howner hmove hkind
      hreferences hpositions hjob
  have hfail : ∀ positions ∈ [references.superClasses, references.superInterfaces],
      ∀ (job : ReferencesJob) error, job.Serves answers view known fails owner positions →
        job.result? = some (.error error) → fails := by
    intro positions hpositions job error hjob herror
    rcases hjob.of_error herror with ⟨halt, hhalt⟩ | hfails
    · refine howner.resolve_left fun hresolvable => ?_
      obtain ⟨targets, htargets, -⟩ :=
        hresolvable.targets hcon hknown hkind hreferences hpositions
      rw [hhalt] at htargets
      cases htargets
    · exact hfails
  rw [moveBuild]
  refine .bind (hmoved _ (by simp) superClasses hclasses) fun superClasses hclasses => ?_
  split
  · next error herror =>
    exact fail_serves (hfail _ (by simp) superClasses error hclasses herror) _ _ error
  · refine .bind (hmoved _ (by simp) superInterfaces hinterfaces) fun superInterfaces hinterfaces => ?_
    split
    · next error herror =>
      exact fail_serves (hfail _ (by simp) superInterfaces error hinterfaces herror) _ _ error
    · next classes interfaces hdone hdone' =>
      obtain ⟨targets, htargets, hnodes⟩ := hclasses.of_ok hdone
      obtain ⟨targets', htargets', hnodes'⟩ := hinterfaces.of_ok hdone'
      exact succeed_serves hcon hknown
        ⟨kind, references, hkind, hreferences, htargets, htargets'⟩ hnodes hnodes'
    · refine .pure ?_
      rw [ResolveJob.Serves]
      exact ⟨rfl, kind, references, hkind, hreferences, hclasses, hinterfaces⟩

end Owned
end Builds

/-! ### Resolutions -/

/-- A claim that is answered with a node is answered with that of its key, and it is refused only if
    the whole run fails. -/
theorem attempt_claim_maintains (hcon : Consistent answers view known keys) {key : DeclarationKey}
    {requester : Option DeclarationKey}
    (hrequester : ∀ holder ∈ requester, Resolvable answers view known holder ∨ fails)
    (hranks : RanksFor answers view known requester key) :
    Maintains answers view known fails
      (attempt (Build.claim key requester) : Round σ (Except ResolveError (Claim TypeNode)))
      fun answer => (∀ error, answer = .error error → fails) ∧
        ∀ node, answer = .ok (.ready node) → node.key = key ∧ Unfolds answers view known node := by
  refine attempt_maintains ?_ ?_ ?_
  · intro s hs
    rw [Build.exec_claim]
    rcases hclaim : s.claims.claim key requester with cycle | ⟨answer, claims⟩
    · exact hs
    · exact hs.claimed hranks hclaim
  · intro s answer hs hanswer
    rw [Build.exec_claim] at hanswer
    rcases hclaim : s.claims.claim key requester with cycle | ⟨answer', claims⟩ <;>
      rw [hclaim] at hanswer <;> cases hanswer
    refine ⟨by rintro _ ⟨⟩, ?_⟩
    rintro node ⟨⟩
    cases ClaimTable.grants_of_claim hclaim with
    | ready hnode => exact hs.nodes hnode
  · intro s error hs herror
    rw [Build.exec_claim] at herror
    rcases hclaim : s.claims.claim key requester with cycle | ⟨answer, claims⟩ <;>
      rw [hclaim] at herror <;> cases herror
    obtain ⟨holder, hholder, hnot⟩ := hs.refused hcon hranks hclaim
    exact ⟨fun _ _ => (hrequester holder hholder).resolve_left hnot, by rintro _ ⟨⟩⟩

/-- **A round keeps what a job serves.** By induction on the depth, which the resolutions of supertypes
    have one less of. -/
theorem move_serves (hanswers : services.AnswersWith answers)
    (hcon : Consistent answers view known keys) (depth : Nat) {job : ResolveJob}
    {target : Declaration} (hknown : known target)
    (htarget : Resolvable answers view known target.key ∨ fails)
    (hjob : job.Serves answers view known fails target) :
    Maintains answers view known fails (move services depth job)
      (ResolveJob.Serves answers view known fails · target) := by
  induction depth generalizing job target with
  | zero => exact .throw (by simp)
  | succ depth ih =>
    have hmove : ∀ job target, known target → Resolvable answers view known target.key ∨ fails →
        job.Serves answers view known fails target →
          Maintains answers view known fails (move services depth job)
            (ResolveJob.Serves answers view known fails · target) :=
      fun _ _ hknown htarget hjob => ih hknown htarget hjob
    cases job with
    | fresh requester declaration =>
      rw [ResolveJob.Serves] at hjob
      obtain ⟨rfl, hrequester, hranks⟩ := hjob
      rw [move]
      cases hkind : declaration.typeKind with
      | error error =>
        refine .pure ?_
        rw [ResolveJob.Serves]
        refine htarget.resolve_left fun hresolvable => ?_
        obtain ⟨_, _, ⟨kind, _, hkind', -⟩, -⟩ := hresolvable.refers hcon hknown
        rw [hkind] at hkind'
        cases hkind'
      | ok kind =>
        refine .bind (attempt_claim_maintains hcon hrequester hranks) fun answer hanswer => ?_
        split
        · next error =>
          exact .pure (hanswer.1 error rfl)
        · next node =>
          exact .pure (hanswer.2 node rfl)
        · exact .pure rfl
        · cases hreferences : declaration.references? kind with
          | none => exact .throw (by simp)
          | some references =>
            exact moveBuild_serves hanswers hcon hknown htarget hmove hkind hreferences
              (ReferencesJob.start_serves declaration _) (ReferencesJob.start_serves declaration _)
    | waiting key ticket =>
      rw [ResolveJob.Serves] at hjob
      subst hjob
      rw [move]
      refine .bind .get fun s hs => .bind .get fun s' hs' => ?_
      split
      · next error _ herror =>
        exact .pure (hs.failures herror)
      · next node _ hnode =>
        exact .pure (hs'.build.nodes hnode)
      · exact .pure rfl
    | building declaration superClasses superInterfaces =>
      rw [ResolveJob.Serves] at hjob
      obtain ⟨rfl, kind, references, hkind, hreferences, hclasses, hinterfaces⟩ := hjob
      exact moveBuild_serves hanswers hcon hknown htarget hmove hkind hreferences hclasses hinterfaces
    | done result => exact .pure hjob

/-! ## All rounds -/

/-- **Rounds keep what a job serves**, however many there are until it is done. -/
theorem moveUntilDone_serves (hanswers : services.AnswersWith answers)
    (hcon : Consistent answers view known keys) (depth rounds : Nat) {job : ResolveJob}
    {target : Declaration} (hknown : known target)
    (htarget : Resolvable answers view known target.key ∨ fails)
    (hjob : job.Serves answers view known fails target) :
    Maintains answers view known fails (moveUntilDone services depth rounds job)
      fun result => (ResolveJob.done result).Serves answers view known fails target := by
  induction rounds generalizing job with
  | zero => exact .throw (by simp)
  | succ rounds ih =>
    rw [moveUntilDone]
    refine .bind (.modify fun s hs => ⟨hs.build, hs.failures⟩) fun _ _ => ?_
    refine .bind (move_serves hanswers hcon depth hknown htarget hjob) fun job' hjob' => ?_
    split
    · next result hresult =>
      cases job' with
      | done result' =>
        cases hresult
        exact .pure hjob'
      | _ => cases hresult
    · exact ih hjob'

/-- Rounds that were enough stay so: more of them change nothing. -/
theorem moveUntilDone_of_le (services : Services σ) (depth : Nat) {rounds more : Nat}
    (hle : rounds ≤ more) {job : ResolveJob} {s : RoundState σ}
    (h : (exec (moveUntilDone services depth rounds job) s).1 ≠ .error .exhausted) :
    exec (moveUntilDone services depth more job) s =
      exec (moveUntilDone services depth rounds job) s := by
  induction rounds generalizing more job s with
  | zero => exact absurd rfl h
  | succ rounds ih =>
    obtain ⟨more, rfl⟩ := Nat.exists_eq_add_of_le' (Nat.lt_of_lt_of_le (Nat.succ_pos _) hle)
    rw [moveUntilDone, exec_bind, exec_modify] at h ⊢
    rw [moveUntilDone, exec_bind, exec_modify]
    dsimp only at h ⊢
    rw [exec_bind] at h ⊢
    rw [exec_bind]
    rcases hmoved : exec (move services depth job) { s with asked := job.awaited } with
      ⟨halt | job', s'⟩
    · rfl
    · rw [hmoved] at h
      dsimp only at h ⊢
      cases hresult : job'.result? with
      | some result => rfl
      | none =>
        rw [hresult] at h
        exact ih (Nat.le_of_succ_le_succ hle) h

end Round

namespace Build

variable {s : BuildState σ} {root : Declaration} {rounds : Nat}

/-- Giving back all claims takes nothing else away. -/
theorem Upholds.abandon (h : Upholds answers view known s) :
    Upholds answers view known (abandon s) :=
  List.foldlRecOn (motive := fun claims => Upholds answers view known { s with claims := claims })
    _ _ h fun _ hs _ _ => hs.published (by rintro _ ⟨⟩)

theorem exec_resolveInRounds (services : Services σ) (rounds : Nat) (root : Declaration)
    (s : BuildState σ) :
    exec (resolveInRounds services rounds root) s =
      match exec (Round.moveUntilDone services (depthBound services) rounds (.fresh none root))
        ⟨s, [], []⟩ with
      | (.ok (.ok node), state) => (.ok node, state.build)
      | (.ok (.error error), state) => (.error (.failed error), state.build)
      | (.error halt, state) => (.error halt, Build.abandon state.build) := by
  unfold resolveInRounds exec
  rcases hmoved : (Round.moveUntilDone services (depthBound services) rounds
    (.fresh none root)).run.run ⟨s, [], []⟩ with ⟨halt | ⟨error | node⟩, state⟩ <;>
    simp only [ExceptT.run, StateT.run] at hmoved ⊢ <;> rw [hmoved]

/-- Where the rounds are enough, their number does not show. -/
theorem resolveInRounds_of_le (services : Services σ) {more : Nat} (hle : rounds ≤ more)
    (h : (exec (resolveInRounds services rounds root) s).1 ≠ .error .exhausted) :
    exec (resolveInRounds services more root) s = exec (resolveInRounds services rounds root) s := by
  rw [exec_resolveInRounds, exec_resolveInRounds services rounds, Round.moveUntilDone_of_le services _ hle]
  intro hout
  rw [exec_resolveInRounds] at h
  rcases hmoved : exec (Round.moveUntilDone services (depthBound services) rounds
    (.fresh none root)) ⟨s, [], []⟩ with ⟨halt | result, state⟩ <;> rw [hmoved] at h hout <;>
    cases hout
  exact h rfl

/-- A result that is that of a resolution without memory, except that it may be another failure or
    that the rounds may not have been enough. -/
def Resembles (view : Declaration → Declaration) (reference : Except Halt TypeNode) :
    Except Halt TypeNode → Prop
  | .ok node => ∃ found, reference = .ok found ∧ found.strip view = node.strip view
  | .error (.failed _) => ∃ error, reference = .error (.failed error)
  | .error _ => True

/-- A resolution without memory that has room for its calls comes to a node or a failure. -/
theorem resolveAlong_settled (hanswers : services.AnswersWith answers)
    (hcon : Consistent answers view known keys)
    (hlength : keys.length ≤ services.declarationKeys.length + 1) (hknown : known root)
    (hkey : root.key ∈ keys) {depth : Nat} (hdepth : depthBound services ≤ depth) (world : σ) :
    Settled (answers.resolveAlong depth [] root) := by
  have hagreement := ((ready_beginPass (start world)).exec_resolve hanswers hcon hlength hknown hkey
    hdepth).1
  intro halt hhalt
  refine hagreement.settled halt ?_
  have hmirrors := hagreement.mirrors
  rw [hhalt] at hmirrors
  rcases hout : (exec (Build.resolve services root) (beginPass (start world))).1 with halt' | node <;>
    rw [hout] at hmirrors
  · exact hmirrors.symm
  · obtain ⟨_, ⟨⟩, _⟩ := hmirrors

/-- **When services answer decides which failure is reported, and nothing else.** A resolution over
    services that answer later comes to the node that resolution without memory comes to, and it fails
    only if that fails. -/
theorem resolveInRounds_resembles (hanswers : services.AnswersWith answers)
    (hcon : Consistent answers view known keys)
    (hlength : keys.length ≤ services.declarationKeys.length + 1)
    (hs : Upholds answers view known s) (hknown : known root) (hkey : root.key ∈ keys)
    (rounds : Nat) :
    Upholds answers view known (exec (resolveInRounds services rounds root) s).2 ∧
      ∀ depth, depthBound services ≤ depth →
        Resembles view (answers.resolveAlong depth [] root)
          (exec (resolveInRounds services rounds root) s).1 := by
  have hbound : ∀ depth, depthBound services ≤ depth → keys.length < depth := by
    intro depth hdepth
    rw [depthBound] at hdepth
    omega
  have hjob : (ResolveJob.fresh none root).Serves answers view known
      (¬ Resolvable answers view known root.key) root := by
    rw [ResolveJob.Serves]
    exact ⟨rfl, by simp, by rintro _ ⟨⟩⟩
  obtain ⟨hupholds, hresult⟩ := Round.moveUntilDone_serves hanswers hcon (depthBound services) rounds
    hknown (Classical.em _) hjob ⟨s, [], []⟩ ⟨hs, by rintro _ _ ⟨⟩⟩
  rw [exec_resolveInRounds]
  rcases hout : exec (Round.moveUntilDone services (depthBound services) rounds
    (.fresh none root)) ⟨s, [], []⟩ with ⟨halt | ⟨error | node⟩, state⟩ <;>
    rw [hout] at hupholds hresult
  · refine ⟨hupholds.build.abandon, fun _ _ => ?_⟩
    cases halt with
    | failed error => exact absurd rfl (hresult error)
    | _ => trivial
  · refine ⟨hupholds.build, fun depth hdepth => ?_⟩
    have hfails : ¬ Resolvable answers view known root.key := hresult
    cases hreference : answers.resolveAlong depth [] root with
    | ok found =>
      exact absurd ((resolvable_iff_resolveAlong hcon hknown hkey (hbound depth hdepth)).mpr
        ⟨found, hreference⟩) hfails
    | error halt =>
      obtain ⟨error', rfl⟩ := resolveAlong_settled hanswers hcon hlength hknown hkey hdepth
        s.lookups.world halt hreference
      exact ⟨error', rfl⟩
  · refine ⟨hupholds.build, fun depth hdepth => ?_⟩
    obtain ⟨heq, hunfolds⟩ : node.key = root.key ∧ Unfolds answers view known node := hresult
    exact hunfolds.resolveAlong hcon hknown hkey (hbound depth hdepth) heq

end Build

end Lineage
