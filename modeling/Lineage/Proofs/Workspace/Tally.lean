import Lineage.Proofs.Hierarchy.Effort
import Lineage.Proofs.Hierarchy.Recording
import Mathlib.Data.List.Dedup

set_option autoImplicit false

/-! # The calls of a pass

How often a pass over a workspace calls its services, exactly. Over a pass in which all resolutions
succeed, definition lookups are made once per reference of each node at the end, however many roots
and ways lead to the node; and declarations are listed once per place that those lookups answered,
however often the place was answered (`resolve_tally`).

The places are known from the record that is kept beside the lookups. Between two lookups the memo
holds the places on record, each once, and as many listings were made as the memo has places. -/

namespace Lineage
namespace Workspace

open Build

variable {workspace : Workspace} {base : ServiceCounts}

theorem exec_resolveDefinitions (uri : String) (position : Position) (counts : ServiceCounts) :
    exec (workspace.services.resolveDefinitions uri position) counts =
      (.ok (workspace.definitionsAt uri position), counts.countLookup) := rfl

theorem exec_findDeclaration (uri : String) (range : Range) (counts : ServiceCounts) :
    exec (workspace.services.findDeclaration uri range) counts =
      (.ok ((workspace.declarations uri).find? fun declaration => declaration.range = range),
        counts.countListing) := rfl

/-! ## Between two lookups -/

/-- The calls so far, counted from `base` on, against the record and the memo. Some places on record
    are still to be looked at. -/
structure Tally (base : ServiceCounts) (awaited : List Location)
    (s : LookupState (Recorded ServiceCounts)) : Prop where
  lookups : s.world.1.definitionLookups = base.definitionLookups + s.world.2.length
  listings : s.world.1.symbolListings = base.symbolListings + s.memo.length
  nodup : s.memo.keys.Nodup
  mem_iff : ∀ location, location ∈ s.world.2.flatten ↔
    location ∈ s.memo.keys ∨ location ∈ awaited

/-- A place is listed once, when it is looked at for the first time. -/
theorem Tally.declarationAt {location : Location} {awaited : List Location}
    {s : LookupState (Recorded ServiceCounts)} (h : Tally base (location :: awaited) s) :
    ∃ found s', exec (Lookup.declarationAt workspace.services.recording location) s =
      (.ok found, s') ∧ Tally base awaited s' := by
  rw [Lookup.exec_declarationAt, Services.exec_recording_findDeclaration, exec_findDeclaration]
  cases hmemo : s.memo.get? location with
  | some found =>
    refine ⟨found, s, rfl, h.lookups, h.listings, h.nodup, fun other => ?_⟩
    have hknown : location ∈ s.memo.keys := by
      rw [Assoc.mem_keys_iff, hmemo]
      rfl
    rw [h.mem_iff, List.mem_cons]
    grind
  | none =>
    have hnew : location ∉ s.memo.keys := by
      rw [Assoc.mem_keys_iff, hmemo]
      decide
    refine ⟨_, _, rfl, h.lookups, ?_, Assoc.nodup_keys_insert h.nodup _ _, fun other => ?_⟩
    · have hlistings := h.listings
      simp only [ServiceCounts.countListing, Assoc.insert_of_get?_eq_none hmemo, List.length_append,
        List.length_singleton]
      omega
    · rw [h.mem_iff, Assoc.keys_insert, if_neg hnew, List.mem_append, List.mem_singleton,
        List.mem_cons]
      grind

theorem Tally.mapM_declarationAt {locations : List Location}
    {s : LookupState (Recorded ServiceCounts)} (h : Tally base locations s) :
    ∃ found s', exec (locations.mapM (Lookup.declarationAt workspace.services.recording)) s =
      (.ok found, s') ∧ Tally base [] s' := by
  induction locations generalizing s with
  | nil => exact ⟨[], s, rfl, h⟩
  | cons location rest ih =>
    obtain ⟨found, s₁, hfirst, h₁⟩ := @declarationAt workspace _ _ _ _ h
    obtain ⟨others, s₂, hrest, h₂⟩ := ih h₁
    refine ⟨found :: others, s₂, ?_, h₂⟩
    rw [exec_mapM_cons, hfirst]
    dsimp only
    rw [hrest]

/-- A lookup is counted once, and the places it answers are all looked at. -/
theorem Tally.definitionsAt (uri : String) (position : Position)
    (s : LookupState (Recorded ServiceCounts)) (h : Tally base [] s) :
    Tally base [] (exec (Lookup.definitionsAt workspace.services.recording uri position) s).2 := by
  rw [Lookup.exec_definitionsAt, Services.exec_recording_resolveDefinitions,
    exec_resolveDefinitions]
  dsimp only
  have hasked : Tally base (workspace.definitionsAt uri position)
      { s with world := (s.world.1.countLookup,
        s.world.2 ++ [workspace.definitionsAt uri position]) } := by
    refine ⟨?_, h.listings, h.nodup, fun location => ?_⟩
    · have hlookups := h.lookups
      simp only [ServiceCounts.countLookup, List.length_append, List.length_singleton]
      omega
    · have hknown := h.mem_iff location
      simp only [List.flatten_append, List.flatten_singleton, List.mem_append]
      simp only [List.not_mem_nil, or_false] at hknown
      rw [hknown]
  obtain ⟨found, s', hfound, hs'⟩ := @Tally.mapM_declarationAt workspace _ _ _ hasked
  rw [hfound]
  exact hs'

/-! ## Whole passes -/

theorem Tally.resolve (root : Declaration) (s : BuildState (Recorded ServiceCounts))
    (h : Tally base [] s.lookups) :
    Tally base [] (exec (resolve workspace.services.recording root) s).2.lookups :=
  resolveFrom_keeps Tally.definitionsAt (depthBound workspace.services.recording) none root h

theorem countsLookups_record {σ : Type} (services : Services σ) :
    CountsLookups services.recording fun s => s.world.2.length := by
  intro uri position found s s' h
  obtain ⟨locations, hrecord⟩ := Lookup.definitionsAt_record services h
  show s'.world.2.length = s.world.2.length + 1
  rw [hrecord, List.length_append, List.length_singleton]

/-- The memo holds as many places as the record names. -/
theorem Tally.length_memo {s : LookupState (Recorded ServiceCounts)} (h : Tally base [] s) :
    s.memo.length = s.world.2.flatten.dedup.length := by
  have hperm : s.memo.keys.Perm s.world.2.flatten.dedup := by
    refine (List.perm_ext_iff_of_nodup h.nodup (List.nodup_dedup _)).mpr fun location => ?_
    rw [List.mem_dedup, h.mem_iff]
    simp
  rw [← hperm.length_eq, Assoc.keys, List.length_map]

theorem tally_beginPass (state : BuildState ServiceCounts) :
    Tally state.lookups.world [] ((beginPass state).recorded []).lookups :=
  ⟨rfl, rfl, List.nodup_nil, by simp [BuildState.recorded, beginPass, Lookup.clear, Assoc.keys]⟩

/-- **The calls of a pass.** Over a pass in which some roots are resolved one after the other and all
    succeed, as many definition lookups are made as the declarations of the nodes at its end make
    references, and as many listings as there are different places among the answers of those
    lookups. The answers are those on record when the same resolutions are run over services that
    keep one; all else is as without it. -/
theorem resolve_tally (workspace : Workspace) (state : BuildState ServiceCounts)
    (roots : List Declaration) (resolved : List TypeNode)
    (h : (exec (roots.mapM (resolve workspace.services)) (beginPass state)).1 = .ok resolved) :
    let after := (exec (roots.mapM (resolve workspace.services)) (beginPass state)).2
    after.claims.nodes.keys.Nodup ∧
      after.lookups.world.definitionLookups =
        state.lookups.world.definitionLookups + referenceTotal after.claims.nodes ∧
      ∃ answers : List (List Location),
        exec (roots.mapM (resolve workspace.services.recording)) ((beginPass state).recorded []) =
            (.ok resolved, after.recorded answers) ∧
          answers.length = referenceTotal after.claims.nodes ∧
          after.lookups.world.symbolListings =
            state.lookups.world.symbolListings + answers.flatten.dedup.length := by
  intro after
  obtain ⟨answers, hrecorded⟩ := exec_resolve_recorded workspace.services roots (beginPass state) []
  rw [h] at hrecorded
  have hsound : Sound [] ((beginPass state).recorded []).claims := Sound.empty _
  have hpaid : Paid (fun s => s.world.2.length) ((beginPass state).recorded [])
      (after.recorded answers) := by
    refine mapM_paid ?_ ?_ hsound hrecorded
    · intro declaration s hs
      exact resolveFrom_sound _ _ declaration s hs
    · intro declaration s node s' hs hnode
      exact resolveFrom_paid (countsLookups_record workspace.services) hs hnode
  have htally : Tally state.lookups.world [] (after.recorded answers).lookups := by
    have hkept := exec_mapM_invariant
      (I := fun s : BuildState (Recorded ServiceCounts) => Tally state.lookups.world [] s.lookups)
      (@Tally.resolve workspace state.lookups.world) roots (tally_beginPass state)
    rwa [hrecorded] at hkept
  have hlength : answers.length = referenceTotal after.claims.nodes := by
    have hbalance := hpaid.balance
    simpa [BuildState.recorded, beginPass, ClaimTable.clear, referenceTotal] using hbalance
  refine ⟨hpaid.nodup List.nodup_nil, ?_, answers, hrecorded, hlength, ?_⟩
  · rw [← hlength]
    exact htally.lookups
  · have hlistings := htally.listings
    rw [htally.length_memo] at hlistings
    exact hlistings

/-- A class that implements two interfaces, both of which extend a third. -/
def sampleDiamond : Workspace := ofSnapshot {
  documents := [{
    uri := "sample"
    languageId := none
    text := "interface I {} interface J extends I {} interface K extends I {} class A implements J, K {}"
    symbols := [
      ⟨"I", none, .interfaceType, ⟨⟨0, 0⟩, ⟨0, 14⟩⟩, ⟨⟨0, 10⟩, ⟨0, 11⟩⟩, []⟩,
      ⟨"J", none, .interfaceType, ⟨⟨0, 15⟩, ⟨0, 39⟩⟩, ⟨⟨0, 25⟩, ⟨0, 26⟩⟩, []⟩,
      ⟨"K", none, .interfaceType, ⟨⟨0, 40⟩, ⟨0, 64⟩⟩, ⟨⟨0, 50⟩, ⟨0, 51⟩⟩, []⟩,
      ⟨"A", none, .classType, ⟨⟨0, 65⟩, ⟨0, 91⟩⟩, ⟨⟨0, 71⟩, ⟨0, 72⟩⟩, []⟩] }]
  definitions := [
    ⟨"sample", ⟨⟨0, 35⟩, ⟨0, 36⟩⟩, [⟨"sample", ⟨⟨0, 0⟩, ⟨0, 14⟩⟩⟩]⟩,
    ⟨"sample", ⟨⟨0, 60⟩, ⟨0, 61⟩⟩, [⟨"sample", ⟨⟨0, 0⟩, ⟨0, 14⟩⟩⟩]⟩,
    ⟨"sample", ⟨⟨0, 84⟩, ⟨0, 85⟩⟩, [⟨"sample", ⟨⟨0, 15⟩, ⟨0, 39⟩⟩⟩]⟩,
    ⟨"sample", ⟨⟨0, 87⟩, ⟨0, 88⟩⟩, [⟨"sample", ⟨⟨0, 40⟩, ⟨0, 64⟩⟩⟩]⟩] }

/-- The class of the diamond and one of its interfaces, the class twice. -/
def sampleRoots : List Declaration :=
  (sampleDiamond.declarations "sample").drop 3 ++ (sampleDiamond.declarations "sample").drop 1

example : sampleRoots.map Declaration.name = ["A", "J", "K", "A"] := by decide +kernel

/-- The pass that resolves them. -/
def sampleRun : Except Halt (List TypeNode) × BuildState ServiceCounts :=
  exec (sampleRoots.mapM (resolve sampleDiamond.services)) (beginPass (start .zero))

/-- Four references are looked up, and two of them are answered with the same place. -/
theorem resolve_sampleRoots_tally :
    ∃ resolved, sampleRun.1 = .ok resolved ∧ referenceTotal sampleRun.2.claims.nodes = 4 ∧
      ∃ answers : List (List Location),
        exec (sampleRoots.mapM (resolve sampleDiamond.services.recording))
            ((beginPass (start .zero)).recorded []) = (.ok resolved, sampleRun.2.recorded answers) ∧
          answers.length = 4 ∧ answers.flatten.dedup.length = 3 := by
  obtain ⟨hcounts, hresolves⟩ : sampleRun.2.lookups.world = ⟨3, 4⟩ ∧
      sampleRun.1.toOption.isSome = true := by
    decide +kernel
  have htally := resolve_tally sampleDiamond (start .zero) sampleRoots
  -- from here on the run is not to be computed
  rw [← sampleRun] at htally
  generalize sampleRun = run at htally hcounts hresolves ⊢
  obtain ⟨resolved | resolved, after⟩ := run
  · cases hresolves
  · obtain ⟨-, hlookups, answers, hrecorded, hlength, hlistings⟩ := htally resolved rfl
    simp only at hcounts hlookups hlength hlistings
    rw [hcounts] at hlookups hlistings
    simp only [start, Lookup.start, ServiceCounts.zero, Nat.zero_add] at hlookups hlistings
    exact ⟨resolved, rfl, hlookups.symm, answers, hrecorded, hlength.trans hlookups.symm,
      hlistings.symm⟩

end Workspace
end Lineage
