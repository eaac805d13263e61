import Lineage.Proofs.Hierarchy.Cache

set_option autoImplicit false

/-! # Sequences of calls to a builder

A builder is used by starting passes and resolving declarations, one call after the other. Between
calls its table is sound with nothing in flight, whatever was called before and however it ended.

A failure is passed up through the calls in which it arose, and none of them leaves anything behind:
`OnFailingChain` collects the keys of all calls that end with the failure, from the root down to the
call in which it arose, and none of these keys is in the table afterwards. A resolution that reaches
its bound on nesting has not run to its end, so nothing is said of `Halt.exhausted`. -/

namespace Lineage
namespace Build

variable {σ : Type} (services : Services σ)

/-! ## The calls that a failure ends -/

/-- While the references at `positions` are resolved from state `s`, the turn comes to `target` in
    state `s'`: the lookups have succeeded and all targets before it have resolved. -/
def ReachesTarget (resolve : Declaration → Build σ TypeNode) (uri : String)
    (positions : List Position) (s : BuildState σ) (target : Declaration) (s' : BuildState σ) :
    Prop :=
  ∃ found looked before after nodes,
    exec (lookupTargets services uri positions) s = (.ok found, looked) ∧
      found.flatten = before ++ target :: after ∧
      exec (before.mapM resolve) looked = (.ok nodes, s')

/-- While `declaration` is resolved in state `s` with a nesting of at most `depth + 1` calls, it is
    claimed and built, and `target` is resolved for it in state `s'`. -/
def ResolvesInside (depth : Nat) (requester : Option DeclarationKey) (declaration : Declaration)
    (s : BuildState σ) (target : Declaration) (s' : BuildState σ) : Prop :=
  ∃ kind claims references,
    declaration.typeKind = .ok kind ∧
      s.claims.claim declaration.key requester = .ok (.owner, claims) ∧
      declaration.references? kind = some references ∧
      let resolve := resolveFrom services depth (some declaration.key)
      (ReachesTarget services resolve declaration.uri references.superClasses
          { s with claims := claims } target s' ∨
        ∃ superClasses s₁,
          exec (resolveReferences services resolve declaration.uri references.superClasses)
              { s with claims := claims } = (.ok superClasses, s₁) ∧
            ReachesTarget services resolve declaration.uri references.superInterfaces s₁ target s')

/-- The keys of the calls that end with `halt` when `declaration` is resolved in state `s`: its own
    and those of the calls inside it that pass the failure up. -/
inductive OnFailingChain (halt : Halt) : (depth : Nat) → (requester : Option DeclarationKey) →
    (declaration : Declaration) → (s : BuildState σ) → DeclarationKey → Prop where
  | here {depth : Nat} {requester : Option DeclarationKey} {declaration : Declaration}
      {s : BuildState σ} :
      (exec (resolveFrom services depth requester declaration) s).1 = .error halt →
      OnFailingChain halt depth requester declaration s declaration.key
  | inside {depth : Nat} {requester : Option DeclarationKey} {declaration : Declaration}
      {s : BuildState σ} {target : Declaration} {s' : BuildState σ} {key : DeclarationKey} :
      ResolvesInside services depth requester declaration s target s' →
      OnFailingChain halt depth (some declaration.key) target s' key →
      OnFailingChain halt (depth + 1) requester declaration s key

variable {services}

theorem ReachesTarget.exec_eq {resolve : Declaration → Build σ TypeNode} {uri : String}
    {positions : List Position} {s s' s'' : BuildState σ} {target : Declaration} {halt : Halt}
    (h : ReachesTarget services resolve uri positions s target s')
    (hfail : exec (resolve target) s' = (.error halt, s'')) :
    exec (resolveReferences services resolve uri positions) s = (.error halt, s'') := by
  obtain ⟨found, looked, before, after, nodes, hlooked, hfound, hbefore⟩ := h
  rw [exec_resolveReferences, hlooked]
  dsimp only
  rw [hfound]
  exact exec_mapM_of_error after hbefore hfail

/-- A call inside which another call fails ends with that failure at once: all it still does is to
    give its own key back. -/
theorem ResolvesInside.exec_eq {depth : Nat} {requester : Option DeclarationKey}
    {declaration target : Declaration} {s s' s'' : BuildState σ} {halt : Halt}
    (h : ResolvesInside services depth requester declaration s target s')
    (hfail : exec (resolveFrom services depth (some declaration.key) target) s' =
      (.error halt, s'')) :
    exec (resolveFrom services (depth + 1) requester declaration) s =
      (.error halt, published declaration.key none s'') := by
  obtain ⟨kind, claims, references, hkind, hclaim, hreferences, hreach⟩ := h
  rw [exec_resolveFrom_succ, hkind]
  dsimp only
  rw [hclaim]
  dsimp only
  rw [exec_buildNode, hreferences]
  dsimp only
  rcases hreach with hclass | ⟨superClasses, s₁, hclasses, hinterface⟩
  · rw [hclass.exec_eq hfail]
    rfl
  · rw [hclasses]
    dsimp only
    rw [hinterface.exec_eq hfail]
    rfl

/-- What lookups and the resolution of each target keep still holds when the turn comes to a target. -/
theorem ReachesTarget.invariant {I : BuildState σ → Prop} {resolve : Declaration → Build σ TypeNode}
    {uri : String} {positions : List Position} {s s' : BuildState σ} {target : Declaration}
    (h : ReachesTarget services resolve uri positions s target s')
    (hlookup : ∀ uri positions s, I s → I (exec (lookupTargets services uri positions) s).2)
    (hresolve : ∀ inner s, I s → I (exec (resolve inner) s).2) (hs : I s) : I s' := by
  obtain ⟨found, looked, before, after, nodes, hlooked, -, hbefore⟩ := h
  have hfound := hlookup uri positions s hs
  rw [hlooked] at hfound
  have hall := exec_mapM_invariant hresolve before hfound
  rw [hbefore] at hall
  exact hall

/-- What holds once a key is granted, and is kept by lookups and nested calls, holds when a nested call
    is made. -/
theorem ResolvesInside.invariant {I : BuildState σ → Prop} {depth : Nat}
    {requester : Option DeclarationKey} {declaration target : Declaration} {s s' : BuildState σ}
    (h : ResolvesInside services depth requester declaration s target s')
    (hclaimed : ∀ claims, s.claims.claim declaration.key requester = .ok (.owner, claims) →
      I { s with claims := claims })
    (hlookup : ∀ uri positions s, I s → I (exec (lookupTargets services uri positions) s).2)
    (hresolve : ∀ inner s, I s →
      I (exec (resolveFrom services depth (some declaration.key) inner) s).2) : I s' := by
  obtain ⟨kind, claims, references, -, hclaim, -, hreach⟩ := h
  have hstart := hclaimed claims hclaim
  rcases hreach with hclass | ⟨superClasses, s₁, hclasses, hinterface⟩
  · exact hclass.invariant hlookup hresolve hstart
  · have hresolved := resolveReferences_invariant hlookup hresolve declaration.uri
      references.superClasses hstart
    rw [hclasses] at hresolved
    exact hinterface.invariant hlookup hresolve hresolved

/-- A nested call finds the table sound for the keys above it. -/
theorem ResolvesInside.sound {depth : Nat} {chain : List DeclarationKey}
    {declaration target : Declaration} {s s' : BuildState σ}
    (h : ResolvesInside services depth chain.getLast? declaration s target s')
    (hs : Sound chain s.claims) : Sound (chain ++ [declaration.key]) s'.claims := by
  refine h.invariant (I := fun s' => Sound (chain ++ [declaration.key]) s'.claims) ?_ ?_ ?_
  · intro claims hclaim
    obtain ⟨-, hnodes, honChain⟩ := hs.of_owner hclaim
    exact ⟨honChain, hnodes ▸ hs.complete⟩
  · intro uri positions s' hs'
    rw [lookupTargets_claims]
    exact hs'
  · intro inner s' hs'
    simpa using (resolveFrom_sound services depth inner s' hs').sound

/-- Calls on a failing chain fail, and leave no key of the chain in the table. -/
theorem OnFailingChain.uncached {halt : Halt} {depth : Nat} {chain : List DeclarationKey}
    {declaration : Declaration} {s : BuildState σ} {key : DeclarationKey}
    (h : OnFailingChain services halt depth chain.getLast? declaration s key)
    (hhalt : halt ≠ .exhausted) (hs : Sound chain s.claims) :
    ∃ s', exec (resolveFrom services depth chain.getLast? declaration) s = (.error halt, s') ∧
      s'.claims.nodes.get? key = none := by
  generalize hrequester : chain.getLast? = requester at h
  induction h generalizing chain with
  | here hfail =>
    subst hrequester
    refine ⟨_, Prod.ext hfail rfl, ?_⟩
    exact (resolveFrom_sound services _ _ _ hs).uncached halt hfail hhalt
  | inside hinside _ ih =>
    subst hrequester
    obtain ⟨s'', hfail, hnone⟩ := ih (hinside.sound hs) (by simp)
    refine ⟨_, hinside.exec_eq (by simpa using hfail), ?_⟩
    exact hnone

/-! ## Sequences of calls -/

/-- A call to a builder. Resolutions come with any bound on nesting. -/
inductive Call where
  | beginPass
  | resolve (depth : Nat) (root : Declaration)

/-- The state of a builder after a call, however it ends. -/
def Call.run (services : Services σ) (s : BuildState σ) : Call → BuildState σ
  | .beginPass => Build.beginPass s
  | .resolve depth root => (exec (resolveWithin services depth root) s).2

theorem Call.run_sound (call : Call) {s : BuildState σ} (hs : Sound [] s.claims) :
    Sound [] (call.run services s).claims := by
  cases call with
  | beginPass => exact Sound.empty s.claims.nextTicket
  | resolve depth root => exact (resolveFrom_sound services depth root s hs).sound

theorem sound_after_calls (world : σ) (calls : List Call) :
    Sound [] (calls.foldl (Call.run services) (start world)).claims := by
  suffices h : ∀ s : BuildState σ, Sound [] s.claims →
      Sound [] (calls.foldl (Call.run services) s).claims from h _ (Sound.empty 0)
  intro s hs
  induction calls generalizing s with
  | nil => exact hs
  | cons call rest ih => exact ih _ (call.run_sound hs)

end Build
end Lineage
