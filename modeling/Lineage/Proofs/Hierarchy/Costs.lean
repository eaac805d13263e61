import Lineage.Proofs.Hierarchy.Jobs
import Mathlib.Algebra.GroupWithZero.Nat

set_option autoImplicit false

/-! # What is left to do

How much is left to do of a job can be counted, if the answers of the services depend on the question
alone: from the answers it is known what every lookup will lead to, and resolutions nest only so deep. A
lookup counts for its own steps and for the resolution of all that it finds, so jobs that have come to
values count for no less than what these lead to (`sum_cost_flatten_le`). -/

namespace Lineage

/-! ## Counts -/

/-- What is left to do when a search has come to this result, if resolving a declaration takes `cost`. -/
def costOf {ε : Type} (cost : Declaration → Nat) : Except ε (Option Declaration) → Nat
  | .ok (some declaration) => cost declaration
  | _ => 0

namespace Answers

/-- What the lookup of a position leads to, at most. -/
def lookupCost (answers : Answers) (cost : Declaration → Nat) (uri : String) (position : Position) :
    Nat :=
  match answers.resolveDefinitions uri position with
  | .ok locations => (locations.map fun location =>
      costOf cost (answers.findDeclaration location.uri location.range) + 2).sum
  | .error _ => 0

/-- What references at some positions lead to, at most. -/
def referencesCost (answers : Answers) (cost : Declaration → Nat) (uri : String)
    (positions : List Position) : Nat :=
  (positions.map fun position => answers.lookupCost cost uri position + 3).sum + 1

/-- What the resolution of a declaration takes at most, if it nests at most `depth` deep. -/
def cost (answers : Answers) : (depth : Nat) → Declaration → Nat
  | 0, _ => 2
  | depth + 1, declaration =>
    match declaration.typeKind with
    | .error _ => 2
    | .ok kind =>
      match declaration.references? kind with
      | none => 2
      | some references =>
        answers.referencesCost (answers.cost depth) declaration.uri references.superClasses +
          answers.referencesCost (answers.cost depth) declaration.uri references.superInterfaces + 2

end Answers

/-- What is left to do of a search and of what it leads to. -/
def FindJob.left (answers : Answers) (cost : Declaration → Nat) : FindJob → Nat
  | .waiting location => costOf cost (answers.findDeclaration location.uri location.range) + 2
  | .asked location => costOf cost (answers.findDeclaration location.uri location.range) + 1
  | .done result => costOf cost result

/-- What is left to do of a lookup in the document `uri` and of what it leads to. -/
def LookupJob.left (answers : Answers) (cost : Declaration → Nat) (uri : String) : LookupJob → Nat
  | .fresh position => answers.lookupCost cost uri position + 3
  | .asked position => answers.lookupCost cost uri position + 2
  | .finding finds => (finds.map (FindJob.left answers cost)).sum + 1
  | .failed _ => 0

mutual

/-- What is left to do of a resolution that nests at most `depth` deep. -/
def ResolveJob.left (answers : Answers) : (depth : Nat) → ResolveJob → Nat
  | depth, .fresh _ declaration => answers.cost depth declaration
  | _, .waiting _ _ => 1
  | depth, .building declaration superClasses superInterfaces =>
    superClasses.left answers (depth - 1) declaration.uri +
      superInterfaces.left answers (depth - 1) declaration.uri + 1
  | _, .done _ => 0

/-- What is left to do of references from the document `uri`. -/
def ReferencesJob.left (answers : Answers) : (depth : Nat) → (uri : String) → ReferencesJob → Nat
  | depth, uri, .looking lookups =>
    (lookups.map (LookupJob.left answers (answers.cost depth) uri)).sum + 1
  | depth, _, .resolving jobs => leftOfAll answers depth jobs

/-- What is left to do of some resolutions. -/
def leftOfAll (answers : Answers) : (depth : Nat) → List ResolveJob → Nat
  | _, [] => 0
  | depth, job :: jobs => job.left answers depth + leftOfAll answers depth jobs

end

theorem costOf_mapError {ε ε' : Type} (cost : Declaration → Nat) (f : ε → ε')
    (result : Except ε (Option Declaration)) : costOf cost (result.mapError f) = costOf cost result := by
  rcases result with error | found
  · rfl
  · cases found <;> rfl

theorem leftOfAll_eq_sum (answers : Answers) (depth : Nat) (jobs : List ResolveJob) :
    leftOfAll answers depth jobs = (jobs.map (ResolveJob.left answers depth)).sum := by
  induction jobs with
  | nil => rfl
  | cons job jobs ih => rw [leftOfAll, ih, List.map_cons, List.sum_cons]

theorem Answers.cost_pos (answers : Answers) (depth : Nat) (declaration : Declaration) :
    1 < answers.cost depth declaration := by
  cases depth with
  | zero => exact Nat.one_lt_two
  | succ depth =>
    rw [cost]
    split
    · exact Nat.one_lt_two
    · split
      · exact Nat.one_lt_two
      · omega

/-- A build has less left to do than there was to do before its claim. -/
theorem left_start_lt_cost (answers : Answers) (depth : Nat) {declaration : Declaration}
    {kind : TypeKind} {references : References} (hkind : declaration.typeKind = .ok kind)
    (hreferences : declaration.references? kind = some references) :
    (ResolveJob.building declaration (.start references.superClasses)
      (.start references.superInterfaces)).left answers (depth + 1) <
        answers.cost (depth + 1) declaration := by
  have hstart : ∀ positions, (ReferencesJob.start positions).left answers depth declaration.uri =
      answers.referencesCost (answers.cost depth) declaration.uri positions := by
    intro positions
    rw [ReferencesJob.start, ReferencesJob.left, Answers.referencesCost, List.map_map]
    rfl
  rw [ResolveJob.left, Nat.add_sub_cancel, hstart, hstart, Answers.cost, hkind]
  dsimp only
  rw [hreferences]
  exact Nat.lt_succ_self _

/-! ## What lookups lead to -/

/-- Values cost no more than the jobs that have come to them. -/
theorem Joining.sum_le_of_result? {α β : Type} {joining : Joining}
    {result? : β → Option (Except ResolveError α)} {worth : α → Nat} {left : β → Nat}
    (hleft : ∀ job a, result? job = some (.ok a) → worth a ≤ left job) {jobs : List β}
    {values : List α} (h : joining.result? result? jobs = some (.ok values)) :
    (values.map worth).sum ≤ (jobs.map left).sum := by
  induction jobs generalizing values with
  | nil =>
    cases h
    exact Nat.le_refl _
  | cons job jobs ih =>
    obtain ⟨a, rest, rfl, hfirst, hrest⟩ := result?_cons_ok h
    simp only [List.map_cons, List.sum_cons]
    exact Nat.add_le_add (hleft job a hfirst) (ih hrest)

/-- Types cost no more than all that was found. -/
theorem sum_cost_types_le (cost : Declaration → Nat) (found : List (Option Declaration)) :
    (((found.filterMap id).filter fun declaration => declaration.kind.isType).map cost).sum ≤
      (found.map fun declaration => costOf cost (.ok declaration : Except ResolveError _)).sum := by
  induction found with
  | nil => exact Nat.le_refl _
  | cons first found ih =>
    rw [List.map_cons, List.sum_cons]
    cases first with
    | none => exact Nat.le_trans ih (Nat.le_add_left _ _)
    | some declaration =>
      have hfirst : (some declaration :: found).filterMap id = declaration :: found.filterMap id := rfl
      rw [hfirst, List.filter_cons]
      split
      · exact Nat.add_le_add_left ih _
      · exact Nat.le_trans ih (Nat.le_add_left _ _)

theorem LookupJob.sum_cost_le (answers : Answers) (cost : Declaration → Nat) (uri : String)
    {job : LookupJob} {found : List Declaration} (h : job.result? = some (.ok found)) :
    (found.map cost).sum ≤ job.left answers cost uri := by
  cases job with
  | finding finds =>
    obtain ⟨all, hall, hfound⟩ := Option.map_eq_some_iff.mp h
    cases all with
    | error error => cases hfound
    | ok all =>
      cases hfound
      refine Nat.le_trans (sum_cost_types_le cost all) (Nat.le_succ_of_le ?_)
      refine Joining.sum_le_of_result? (fun find a hfind => ?_) hall
      cases find with
      | done result =>
        cases hfind
        exact Nat.le_refl _
      | _ => cases hfind
  | _ => cases h

theorem sum_cost_flatten_le (answers : Answers) (cost : Declaration → Nat) (uri : String)
    {joining : Joining} {lookups : List LookupJob} {found : List (List Declaration)}
    (h : joining.result? LookupJob.result? lookups = some (.ok found)) :
    (found.flatten.map cost).sum ≤ (lookups.map (LookupJob.left answers cost uri)).sum := by
  rw [List.map_flatten, List.sum_flatten, List.map_map]
  exact Joining.sum_le_of_result? (fun _ _ hjob => LookupJob.sum_cost_le answers cost uri hjob) h

end Lineage
