import Lineage.Proofs.Hierarchy.Nesting

set_option autoImplicit false

/-! # The claims of a resolution

Resolutions that are run one after the other never wait for each other, and none of them waits for
itself. `MakesClaim` holds of every claim that is made while a declaration is resolved, together with
the builds that are under way by then, one inside the other. The resolutions in flight are always just
these builds, each depending on the next one and the last on nothing (`MakesClaim.onChain`); so a
claim finds its key resolved, or free, or among the builds, and in the last case it is refused.
Nothing is assumed of the services. -/

namespace Lineage

namespace ClaimTable

variable {ν : Type} {chain : List DeclarationKey} {table : ClaimTable ν}

/-- What a claim on behalf of the last key of a chain is answered with: never with a wait. -/
inductive AnswersAlong (table : ClaimTable ν) (chain : List DeclarationKey) (key : DeclarationKey) :
    Except (List DeclarationKey) (Claim ν × ClaimTable ν) → Prop where
  | ready {node : ν} : table.get? key = some node →
      AnswersAlong table chain key (.ok (.ready node, table))
  /-- The key is being built: the cycle is the chain from there on, and the key again. -/
  | refused : table.get? key = none → key ∈ chain →
      AnswersAlong table chain key (.error (chain.dropWhile (· ≠ key) ++ [key]))
  | owner {table' : ClaimTable ν} : table.get? key = none → key ∉ chain →
      AnswersAlong table chain key (.ok (.owner, table'))

theorem OnChain.answersAlong (h : OnChain chain table) (key : DeclarationKey) :
    AnswersAlong table chain key (table.claim key chain.getLast?) := by
  cases hnode : table.nodes.get? key with
  | some node =>
    rw [claim_of_resolved _ hnode]
    exact .ready hnode
  | none =>
    by_cases hmem : key ∈ chain
    · rw [h.claim_of_mem hmem]
      exact .refused hnode hmem
    · obtain ⟨table', hclaim, -, -⟩ := h.claim_of_not_mem hmem hnode
      rw [hclaim]
      exact .owner hnode hmem

/-- In flight are the keys of a chain, in order. -/
theorem OnChain.keys_eq (h : OnChain chain table) : table.inFlight.keys = chain := by
  have hkeys := congrArg Assoc.keys h.links_eq
  rw [keys_links, dependencies, Assoc.keys, List.map_map] at hkeys
  exact hkeys

/-- On a chain each resolution depends on the next one alone. -/
theorem OnChain.dependsOn_eq (h : OnChain chain table) {front rest : List DeclarationKey}
    {key : DeclarationKey} (hchain : chain = front ++ key :: rest) :
    ∃ flight, table.inFlight.get? key = some flight ∧ flight.dependsOn = rest.head?.toList := by
  have hlink : (dependencies table.inFlight).get? key = some rest.head?.toList := by
    rw [h.links_eq]
    refine Assoc.get?_of_mem (by rw [keys_links]; exact h.nodup) ?_
    rw [hchain]
    exact mem_links_append List.mem_cons_self
  rw [get?_dependencies] at hlink
  exact Option.map_eq_some_iff.mp hlink

end ClaimTable

namespace Build

variable {σ : Type} (services : Services σ)

/-! ## Claims -/

/-- While `declaration` is resolved in state `s`, nesting at most `bound` calls, and the builds of the
    keys `builds` are under way one inside the other, `key` is claimed on behalf of `holder` in state
    `s'`. -/
inductive MakesClaim : (bound : Nat) → (requester : Option DeclarationKey) →
    (declaration : Declaration) → (s : BuildState σ) → (builds : List DeclarationKey) →
    (key : DeclarationKey) → (holder : Option DeclarationKey) → (s' : BuildState σ) → Prop where
  | own {bound : Nat} {requester : Option DeclarationKey} {declaration : Declaration}
      {s : BuildState σ} {kind : TypeKind} :
      declaration.typeKind = .ok kind →
      MakesClaim (bound + 1) requester declaration s [] declaration.key requester s
  | inside {bound : Nat} {requester holder : Option DeclarationKey}
      {declaration target : Declaration} {s s' s'' : BuildState σ} {builds : List DeclarationKey}
      {key : DeclarationKey} :
      ResolvesInside services bound requester declaration s target s' →
      MakesClaim bound (some declaration.key) target s' builds key holder s'' →
      MakesClaim (bound + 1) requester declaration s (declaration.key :: builds) key holder s''

variable {services} {chain builds : List DeclarationKey} {bound : Nat}
  {declaration : Declaration} {s s' : BuildState σ} {key : DeclarationKey}
  {holder requester : Option DeclarationKey}

/-- A claim is made on the chain of all builds that are under way, on behalf of the last one. -/
theorem MakesClaim.onChain
    (h : MakesClaim services bound chain.getLast? declaration s builds key holder s')
    (hs : s.claims.OnChain chain) :
    s'.claims.OnChain (chain ++ builds) ∧ holder = (chain ++ builds).getLast? := by
  -- every build adds its key to the chain, so it is general in the induction
  generalize hrequester : chain.getLast? = requester at h
  induction h generalizing chain with
  | own _ =>
    rw [List.append_nil]
    exact ⟨hs, hrequester.symm⟩
  | inside hinside _ ih =>
    subst hrequester
    rw [List.append_cons]
    exact ih (hinside.onChain hs) (by simp)

/-! ## Why a resolution halts -/

/-- A resolution has to wait only where it has made a claim that is answered so. -/
theorem exists_makesClaim_of_blocked
    (h : (exec (resolveFrom services bound requester declaration) s).1 = .error (.blocked key)) :
    ∃ builds holder s' ticket claims,
      MakesClaim services bound requester declaration s builds key holder s' ∧
        s'.claims.claim key holder = .ok (.wait ticket, claims) := by
  induction bound generalizing requester declaration s with
  | zero => cases h
  | succ bound ih =>
    cases haltCause h with
    | waits hkind hclaim => exact ⟨[], requester, s, _, _, .own hkind, hclaim⟩
    | inside hinside hfail =>
      obtain ⟨builds, holder, s', ticket, claims, hmakes, hclaim⟩ := ih hfail
      exact ⟨_ :: builds, holder, s', ticket, claims, .inside hinside hmakes, hclaim⟩

/-- A resolution is abandoned by no one but the one it waits for. -/
theorem resolveFrom_ne_abandoned (name : String) :
    (exec (resolveFrom services bound requester declaration) s).1 ≠
      .error (.failed (.abandoned name)) := by
  induction bound generalizing requester declaration s with
  | zero => rintro ⟨⟩
  | succ bound ih =>
    intro h
    cases haltCause h with
    | invalidKind hkind =>
      rw [Declaration.typeKind] at hkind
      split at hkind <;> cases hkind
    | inside _ hfail => exact ih hfail

/-- **Sequential resolutions never wait.** Take any services and any sequence of calls to a builder.
    Whenever the next resolution makes a claim, the keys in flight are those of the builds that are
    under way, pairwise distinct; the claim is made on behalf of the last of them, for the root's own
    claim on behalf of none; and each of them depends on the next one alone, the last on nothing. So
    every claim is answered with a node, with the ownership of the key, or with the cycle that it would
    close, never with a wait, and the resolution ends neither blocked nor abandoned. -/
theorem resolve_never_waits (services : Services σ) (world : σ) (calls : List Call) (depth : Nat)
    (root : Declaration) :
    let s := calls.foldl (Call.run services) (start world)
    let result := (exec (resolveWithin services depth root) s).1
    (∀ builds key holder s', MakesClaim services depth none root s builds key holder s' →
      s'.claims.inFlight.keys = builds ∧ builds.Nodup ∧ holder = builds.getLast? ∧
        (∀ front build rest, builds = front ++ build :: rest →
          ∃ flight, s'.claims.inFlight.get? build = some flight ∧
            flight.dependsOn = rest.head?.toList) ∧
        s'.claims.AnswersAlong builds key (s'.claims.claim key holder)) ∧
      (∀ key, result ≠ .error (.blocked key)) ∧
      ∀ name, result ≠ .error (.failed (.abandoned name)) := by
  intro s result
  have hs : s.claims.OnChain [] := (sound_after_calls world calls).toOnChain
  have hchain : ∀ {builds key holder s'},
      MakesClaim services depth none root s builds key holder s' →
      s'.claims.OnChain builds ∧ holder = builds.getLast? := by
    intro builds key holder s' hmakes
    have hroot : MakesClaim services depth ([] : List DeclarationKey).getLast? root s builds key
      holder s' := hmakes
    exact hroot.onChain hs
  refine ⟨?_, ?_, ?_⟩
  · intro builds key holder s' hmakes
    obtain ⟨honChain, rfl⟩ := hchain hmakes
    exact ⟨honChain.keys_eq, honChain.nodup, rfl, fun _ _ _ => honChain.dependsOn_eq,
      honChain.answersAlong key⟩
  · intro key hblocked
    obtain ⟨builds, holder, s', ticket, claims, hmakes, hwait⟩ := exists_makesClaim_of_blocked hblocked
    obtain ⟨honChain, rfl⟩ := hchain hmakes
    have hanswers := honChain.answersAlong key
    rw [hwait] at hanswers
    cases hanswers
  · exact resolveFrom_ne_abandoned

end Build
end Lineage
