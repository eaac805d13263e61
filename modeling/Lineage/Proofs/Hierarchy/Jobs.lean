import Lineage.Hierarchy.Interleaved
import Lineage.Proofs.Hierarchy.Unfolding

set_option autoImplicit false

/-! # What jobs come to

Each job works at something: a search at a place, a lookup at a position, a resolution at a
declaration, and the resolution of references at the positions of their owner. `Serves` says what a job
has come to so far, in terms of what it works at.

The failure of a resolution is not its own matter: it may have waited for one that another job has given
up. So failures are kept as a fact about the whole run, the proposition `fails`: no resolution has
failed unless `fails` holds.

What a job comes to in the end is what the answers give (`of_ok`), or else a failure that the answers
have or that the run fails with (`of_error`). -/

namespace Lineage

/-! ## Joined jobs -/

namespace Joining

variable {α β γ : Type} {joining : Joining} {result? : β → Option (Except ResolveError α)}

theorem result?_cons_ok {job : β} {rest : List β} {values : List α}
    (h : joining.result? result? (job :: rest) = some (.ok values)) :
    ∃ a as, values = a :: as ∧ result? job = some (.ok a) ∧
      joining.result? result? rest = some (.ok as) := by
  unfold Joining.result? at h
  rcases hfirst : result? job with _ | ⟨error | a⟩ <;> rw [hfirst] at h
  · dsimp only at h
    split at h <;> cases h
  · cases h
  · dsimp only at h
    rcases hrest : joining.result? result? rest with _ | ⟨error | as⟩ <;> rw [hrest] at h <;> cases h
    exact ⟨a, as, rfl, rfl, rfl⟩

theorem result?_cons_error {job : β} {rest : List β} {error : ResolveError}
    (h : joining.result? result? (job :: rest) = some (.error error)) :
    result? job = some (.error error) ∨ joining.result? result? rest = some (.error error) := by
  unfold Joining.result? at h
  rcases hfirst : result? job with _ | ⟨other | a⟩ <;> rw [hfirst] at h
  · dsimp only at h
    split at h
    · next hrest =>
      cases h
      exact .inr hrest
    · cases h
  · cases h
    exact .inl rfl
  · dsimp only at h
    rcases hrest : joining.result? result? rest with _ | ⟨other | as⟩ <;> rw [hrest] at h <;> cases h
    exact .inr rfl

/-- Jobs that have all come to values. -/
theorem forall₂_of_result? {R : β → γ → Prop} {S : γ → α → Prop}
    (hdone : ∀ job target a, R job target → result? job = some (.ok a) → S target a)
    {jobs : List β} {targets : List γ} {values : List α} (hjobs : List.Forall₂ R jobs targets)
    (h : joining.result? result? jobs = some (.ok values)) : List.Forall₂ S targets values := by
  induction hjobs generalizing values with
  | nil =>
    cases h
    exact .nil
  | cons hjob _ ih =>
    obtain ⟨a, as, rfl, hfirst, hrest⟩ := result?_cons_ok h
    exact .cons (hdone _ _ a hjob hfirst) (ih hrest)

/-- The failure that counts is that of one of the jobs. -/
theorem exists_of_result?_error {jobs : List β} {error : ResolveError}
    (h : joining.result? result? jobs = some (.error error)) :
    ∃ job ∈ jobs, result? job = some (.error error) := by
  induction jobs with
  | nil => cases h
  | cons job jobs ih =>
    rcases result?_cons_error h with hfirst | hrest
    · exact ⟨job, List.mem_cons_self, hfirst⟩
    · obtain ⟨job', hmem, hfail⟩ := ih hrest
      exact ⟨job', List.mem_cons_of_mem _ hmem, hfail⟩

theorem exists_of_result?_eq_none {jobs : List β}
    (h : joining.result? result? jobs = none) : ∃ job ∈ jobs, result? job = none := by
  induction jobs with
  | nil => cases h
  | cons job jobs ih =>
    unfold Joining.result? at h
    rcases hfirst : result? job with _ | ⟨error | a⟩ <;> rw [hfirst] at h
    · exact ⟨job, List.mem_cons_self, hfirst⟩
    · cases h
    · obtain ⟨other, hother, hnone⟩ := ih (Option.map_eq_none_iff.mp h)
      exact ⟨other, List.mem_cons_of_mem _ hother, hnone⟩

theorem result?_cons_of_error {job : β} {error : ResolveError} (rest : List β)
    (h : result? job = some (.error error)) :
    joining.result? result? (job :: rest) = some (.error error) := by
  unfold Joining.result?
  rw [h]

/-- A failure behind a value counts. -/
theorem result?_cons_of_ok {job : β} {rest : List β} {a : α} {error : ResolveError}
    (h : result? job = some (.ok a))
    (hrest : joining.result? result? rest = some (.error error)) :
    joining.result? result? (job :: rest) = some (.error error) := by
  unfold Joining.result?
  rw [h, hrest]
  rfl

/-- A failure behind a pending job counts if jobs are joined eagerly. -/
theorem result?_cons_of_pending {job : β} {rest : List β} {error : ResolveError}
    (h : result? job = none) (hrest : eager.result? result? rest = some (.error error)) :
    eager.result? result? (job :: rest) = some (.error error) := by
  unfold Joining.result?
  rw [h, hrest]

end Joining

/-! ## What jobs work at -/

/-- A search at a place, as far as it has come. -/
def FindJob.Serves (answers : Answers) : FindJob → Location → Prop
  | .waiting location, target => location = target
  | .asked location, target => location = target
  | .done (.ok found), target => answers.findDeclaration target.uri target.range = .ok found
  | .done (.error _), target =>
    ∃ failure, answers.findDeclaration target.uri target.range = .error failure

/-- A lookup at a position in the document `uri`, as far as it has come. -/
def LookupJob.Serves (answers : Answers) (uri : String) : LookupJob → Position → Prop
  | .fresh position, target => position = target
  | .asked position, target => position = target
  | .finding finds, target => ∃ locations, answers.resolveDefinitions uri target = .ok locations ∧
      List.Forall₂ (FindJob.Serves answers) finds locations
  | .failed _, target => ∃ failure, answers.definitionsAt uri target = .error failure

/-- A claim of `key` would be made for something that it ranks below, if that resolves. -/
def RanksFor (answers : Answers) (view : Declaration → Declaration) (known : Declaration → Prop)
    (requester : Option DeclarationKey) (key : DeclarationKey) : Prop :=
  ∀ holder ∈ requester, Resolvable answers view known holder →
    Outranks answers view known holder key

mutual

/-- A resolution of a declaration, as far as it has come. -/
def ResolveJob.Serves (answers : Answers) (view : Declaration → Declaration)
    (known : Declaration → Prop) (fails : Prop) : ResolveJob → Declaration → Prop
  | .fresh requester declaration, target => declaration = target ∧
      (∀ holder ∈ requester, Resolvable answers view known holder ∨ fails) ∧
      RanksFor answers view known requester target.key
  | .waiting key _, target => key = target.key
  | .building declaration superClasses superInterfaces, target => declaration = target ∧
      ∃ kind references, declaration.typeKind = .ok kind ∧
        declaration.references? kind = some references ∧
        superClasses.Serves answers view known fails declaration references.superClasses ∧
        superInterfaces.Serves answers view known fails declaration references.superInterfaces
  | .done (.ok node), target => node.key = target.key ∧ Unfolds answers view known node
  | .done (.error _), _ => fails

/-- A resolution of what `owner` refers to at some positions, as far as it has come. -/
def ReferencesJob.Serves (answers : Answers) (view : Declaration → Declaration)
    (known : Declaration → Prop) (fails : Prop) :
    ReferencesJob → Declaration → List Position → Prop
  | .looking lookups, owner, positions =>
    List.Forall₂ (LookupJob.Serves answers owner.uri) lookups positions
  | .resolving jobs, owner, positions => ∃ targets,
      answers.targets owner.uri positions = .ok targets ∧
        serveAll answers view known fails jobs targets

/-- Resolutions of some declarations, one for each. -/
def serveAll (answers : Answers) (view : Declaration → Declaration)
    (known : Declaration → Prop) (fails : Prop) : List ResolveJob → List Declaration → Prop
  | [], targets => targets = []
  | job :: jobs, targets => ∃ target rest, targets = target :: rest ∧
      job.Serves answers view known fails target ∧ serveAll answers view known fails jobs rest

end

variable {answers : Answers} {view : Declaration → Declaration} {known : Declaration → Prop}
  {fails : Prop}

theorem serveAll_iff_forall₂ {jobs : List ResolveJob} {targets : List Declaration} :
    serveAll answers view known fails jobs targets ↔
      List.Forall₂ (ResolveJob.Serves answers view known fails) jobs targets := by
  induction jobs generalizing targets with
  | nil => rw [serveAll, List.forall₂_nil_left_iff]
  | cons job jobs ih =>
    rw [serveAll, List.forall₂_cons_left_iff]
    constructor
    · rintro ⟨target, rest, rfl, hjob, hjobs⟩
      exact ⟨target, rest, hjob, ih.mp hjobs, rfl⟩
    · rintro ⟨target, rest, hjob, hjobs, rfl⟩
      exact ⟨target, rest, rfl, hjob, ih.mpr hjobs⟩

/-- References serve their positions when they are begun. -/
theorem ReferencesJob.start_serves (owner : Declaration) (positions : List Position) :
    (start positions).Serves answers view known fails owner positions := by
  rw [start, Serves, List.forall₂_map_left_iff, List.forall₂_same]
  exact fun _ _ => rfl

/-! ## Results of jobs -/

namespace FindJob.Serves

variable {job : FindJob} {location : Location}

theorem of_ok {found : Option Declaration} (h : job.Serves answers location)
    (hresult : job.result? = some (.ok found)) :
    answers.findDeclaration location.uri location.range = .ok found := by
  cases job with
  | done result =>
    cases hresult
    exact h
  | _ => cases hresult

theorem of_error {error : ResolveError} (h : job.Serves answers location)
    (hresult : job.result? = some (.error error)) :
    ∃ failure, answers.findDeclaration location.uri location.range = .error failure := by
  cases job with
  | done result =>
    cases hresult
    exact h
  | _ => cases hresult

end FindJob.Serves

namespace LookupJob.Serves

variable {job : LookupJob} {uri : String} {position : Position}

theorem of_ok {found : List Declaration} (h : job.Serves answers uri position)
    (hresult : job.result? = some (.ok found)) :
    answers.definitionsAt uri position = .ok found := by
  cases job with
  | finding finds =>
    obtain ⟨locations, hlocations, hfinds⟩ := h
    obtain ⟨all, hall, hfound⟩ := Option.map_eq_some_iff.mp hresult
    cases all with
    | error error => cases hfound
    | ok all =>
      cases hfound
      have hanswers : List.Forall₂ (fun (location : Location) found =>
          answers.findDeclaration location.uri location.range = .ok found) locations all :=
        Joining.forall₂_of_result? (fun _ _ _ hjob hdone => hjob.of_ok hdone) hfinds hall
      rw [Answers.definitionsAt_of_ok hlocations, Answers.mapM_of_forall₂ hanswers]
      rfl
  | _ => cases hresult

theorem of_error {error : ResolveError} (h : job.Serves answers uri position)
    (hresult : job.result? = some (.error error)) :
    ∃ failure, answers.definitionsAt uri position = .error failure := by
  cases job with
  | finding finds =>
    obtain ⟨locations, hlocations, hfinds⟩ := h
    obtain ⟨all, hall, hfound⟩ := Option.map_eq_some_iff.mp hresult
    cases all with
    | error error =>
      obtain ⟨find, hfind, hfail⟩ := Joining.exists_of_result?_error hall
      obtain ⟨location, hlocation, hserves⟩ := Answers.exists_of_forall₂ hfinds hfind
      obtain ⟨failure, hfailure⟩ := hserves.of_error hfail
      obtain ⟨failure', hfailure'⟩ := Answers.mapM_error_of_mem
        (f := fun location : Location => answers.findDeclaration location.uri location.range)
        hlocation hfailure
      rw [Answers.definitionsAt_of_ok hlocations, hfailure']
      exact ⟨failure', rfl⟩
    | ok all => cases hfound
  | failed error => exact h
  | _ => cases hresult

end LookupJob.Serves

namespace ReferencesJob.Serves

variable {job : ReferencesJob} {owner : Declaration} {positions : List Position}

/-- Lookups that have all succeeded have found the targets. -/
theorem targets_of_lookups {joining : Joining} {lookups : List LookupJob} {uri : String}
    {found : List (List Declaration)}
    (h : List.Forall₂ (LookupJob.Serves answers uri) lookups positions)
    (hresult : joining.result? LookupJob.result? lookups = some (.ok found)) :
    answers.targets uri positions = .ok found.flatten := by
  have hlookups := Joining.forall₂_of_result?
    (S := fun position declarations => answers.lookup uri position = .ok declarations)
    (fun _ _ _ hjob hdone => by rw [Answers.lookup, hjob.of_ok hdone]; rfl) h hresult
  rw [Answers.targets, Answers.mapM_of_forall₂ hlookups]
  rfl

/-- What has been resolved are nodes of the targets. -/
theorem of_ok {nodes : List TypeNode} (h : job.Serves answers view known fails owner positions)
    (hresult : job.result? = some (.ok nodes)) :
    ∃ targets, answers.targets owner.uri positions = .ok targets ∧
      List.Forall₂ (fun target node => node.key = target.key ∧ Unfolds answers view known node)
        targets nodes := by
  cases job with
  | looking lookups =>
    rw [ReferencesJob.result?] at hresult
    split at hresult <;> cases hresult
  | resolving jobs =>
    rw [Serves] at h
    obtain ⟨targets, htargets, hjobs⟩ := h
    refine ⟨targets, htargets, ?_⟩
    refine Joining.forall₂_of_result? ?_ (serveAll_iff_forall₂.mp hjobs) hresult
    intro job target node hjob hdone
    cases job with
    | done result =>
      cases hdone
      rwa [ResolveJob.Serves] at hjob
    | _ => cases hdone

/-- References that fail cannot be looked up, or the whole run fails. -/
theorem of_error {error : ResolveError} (h : job.Serves answers view known fails owner positions)
    (hresult : job.result? = some (.error error)) :
    (∃ halt, answers.targets owner.uri positions = .error halt) ∨ fails := by
  cases job with
  | looking lookups =>
    rw [Serves] at h
    rw [ReferencesJob.result?] at hresult
    split at hresult
    · next error' hall =>
      obtain ⟨job, hjob, hfail⟩ := Joining.exists_of_result?_error hall
      obtain ⟨position, hposition, hserves⟩ := Answers.exists_of_forall₂ h hjob
      obtain ⟨failure, hfailure⟩ := hserves.of_error hfail
      have hlookup : answers.lookup owner.uri position = .error (.failed (.service failure)) := by
        rw [Answers.lookup, hfailure]
        rfl
      obtain ⟨halt, hhalt⟩ := Answers.mapM_error_of_mem hposition hlookup
      rw [Answers.targets, hhalt]
      exact .inl ⟨halt, rfl⟩
    · cases hresult
  | resolving jobs =>
    rw [Serves] at h
    obtain ⟨targets, -, hjobs⟩ := h
    obtain ⟨job, hjob, hfail⟩ := Joining.exists_of_result?_error hresult
    obtain ⟨target, -, hserves⟩ := Answers.exists_of_forall₂ (serveAll_iff_forall₂.mp hjobs) hjob
    cases job with
    | done result =>
      cases hfail
      rw [ResolveJob.Serves] at hserves
      exact .inr hserves
    | _ => cases hfail

end ReferencesJob.Serves

end Lineage
