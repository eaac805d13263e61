import Lineage.Claim.Session
import Lineage.Proofs.Claim.Dependencies

set_option autoImplicit false

/-! # Runs of a session

A session is used by actions, one after the other, in any order: whoever shares the table, what happens
to it is some list of actions. An action that is refused, or that names a guard or wait which is not
there, changes nothing.

`Acts` says once what an action can change. An invariant of sessions is proved for the cases of `Acts`,
and `run_invariant` carries it over whole runs, also over runs that keep to a discipline. -/

namespace Lineage
namespace ClaimSession

variable {ν : Type}

/-! ## Actions -/

/-- What can be done with a session. -/
inductive Action (ν : Type) where
  | claim (key : DeclarationKey) (requester : Option DeclarationKey)
  | complete (slot : Nat) (result : Except ResolveError ν)
  | drop (slot : Nat)
  | poll (slot : Nat)
  | put (key : DeclarationKey) (node : ν)
  | clear

/-- The session after an action. -/
def act (session : ClaimSession ν) : Action ν → ClaimSession ν
  | .claim key requester =>
    match session.claim key requester with
    | .ok (_, after) => after
    | .error _ => session
  | .complete slot result => (session.complete? slot result).getD session
  | .drop slot => (session.drop? slot).getD session
  | .poll slot =>
    match session.poll? slot with
    | some (_, after) => after
    | none => session
  | .put key node => session.put key node
  | .clear => session.clear

/-- The actions by which the guard `slot` of `key` publishes a result. -/
inductive Action.Publishes (slot : Nat) (key : DeclarationKey) :
    Action ν → Except ResolveError ν → Prop where
  | complete (result : Except ResolveError ν) : Publishes slot key (.complete slot result) result
  | drop : Publishes slot key (.drop slot) (.error (.abandoned key.name))

/-- The wait in a slot that is not used up. -/
def wait? (session : ClaimSession ν) (slot : Nat) : Option Wait :=
  (session.waits[slot]?).join

/-- The session after a claim of `key` that was told to wait. -/
def await (session : ClaimSession ν) (key : DeclarationKey) (requester : Option DeclarationKey)
    (ticket : Nat) : ClaimSession ν :=
  { session with
    table := session.table.noteRequest key requester
    waits := session.waits ++ [some ⟨key, ticket⟩] }

/-- The session after a claim of `key` that was told to own it. -/
def own (session : ClaimSession ν) (key : DeclarationKey) (requester : Option DeclarationKey) :
    ClaimSession ν :=
  { session with
    table := (session.table.noteRequest key requester).takeOff key
    guards := session.guards ++ [some key] }

/-- The session after the guard `slot` of `key` has published a result. -/
def release (session : ClaimSession ν) (slot : Nat) (key : DeclarationKey)
    (result : Except ResolveError ν) : ClaimSession ν :=
  { session.publish key result with guards := session.guards.set slot none }

/-- What an action can do to a session, with what it presupposes. -/
inductive Acts (session : ClaimSession ν) : Action ν → ClaimSession ν → Prop where
  | idle {action : Action ν} : Acts session action session
  | wait {key : DeclarationKey} {requester : Option DeclarationKey} {ticket : Nat} :
      session.table.nodes.get? key = none → ¬ session.table.Closes key requester →
      session.table.ticket? key = some ticket →
      Acts session (.claim key requester) (session.await key requester ticket)
  | owner {key : DeclarationKey} {requester : Option DeclarationKey} :
      session.table.nodes.get? key = none → ¬ session.table.Closes key requester →
      session.table.ticket? key = none →
      Acts session (.claim key requester) (session.own key requester)
  | release {slot : Nat} {key : DeclarationKey} {action : Action ν}
      {result : Except ResolveError ν} : session.guard? slot = some key →
      action.Publishes slot key result → Acts session action (session.release slot key result)
  | collect {slot : Nat} {wait : Wait} {result : Except ResolveError ν} :
      session.wait? slot = some wait → session.settled? wait = some result →
      Acts session (.poll slot) { session with waits := session.waits.set slot none }
  | put {key : DeclarationKey} {node : ν} : Acts session (.put key node) (session.put key node)
  | clear : Acts session .clear session.clear

/-! ## Single actions -/

variable {session : ClaimSession ν} {slot : Nat} {key : DeclarationKey}

theorem complete?_of_guard? (h : session.guard? slot = some key) (result : Except ResolveError ν) :
    session.complete? slot result = some (session.release slot key result) := by
  rw [complete?, h]
  rfl

theorem drop?_of_guard? (h : session.guard? slot = some key) :
    session.drop? slot = some (session.release slot key (.error (.abandoned key.name))) := by
  rw [drop?, h]
  exact complete?_of_guard? h _

theorem act_of_publishes {action : Action ν} {result : Except ResolveError ν}
    (hguard : session.guard? slot = some key) (h : action.Publishes slot key result) :
    session.act action = session.release slot key result := by
  cases h with
  | complete result => rw [act, complete?_of_guard? hguard, Option.getD_some]
  | drop => rw [act, drop?_of_guard? hguard, Option.getD_some]

/-- What a claim of a session comes to, unless it is refused. -/
theorem claim_cases {requester : Option DeclarationKey} {granted : Granted ν}
    {after : ClaimSession ν} (h : session.claim key requester = .ok (granted, after)) :
    (∃ node, session.table.nodes.get? key = some node ∧ granted = .ready node ∧
        after = session) ∨
      session.table.nodes.get? key = none ∧ ¬ session.table.Closes key requester ∧
        ((∃ ticket, session.table.ticket? key = some ticket ∧
            granted = .wait session.waits.length ∧ after = session.await key requester ticket) ∨
          session.table.ticket? key = none ∧ granted = .owner session.guards.length ∧
            after = session.own key requester) := by
  unfold claim at h
  rcases hclaim : session.table.claim key requester with cycle | ⟨answer, table⟩
  · rw [hclaim] at h
    cases h
  · rw [hclaim] at h
    cases ClaimTable.grants_of_claim hclaim with
    | @ready node hnode =>
      cases h
      exact .inl ⟨node, hnode, rfl, rfl⟩
    | @wait ticket hnone hcloses hticket =>
      cases h
      exact .inr ⟨hnone, hcloses, .inl ⟨ticket, hticket, rfl, rfl⟩⟩
    | owner hnone hcloses hfree =>
      cases h
      exact .inr ⟨hnone, hcloses, .inr ⟨hfree, rfl, rfl⟩⟩

/-- Every action is one of the cases of `Acts`. -/
theorem acts (session : ClaimSession ν) (action : Action ν) :
    session.Acts action (session.act action) := by
  cases action with
  | claim key requester =>
    rw [act]
    rcases hclaim : session.claim key requester with error | ⟨granted, after⟩
    · exact .idle
    · dsimp only
      rcases claim_cases hclaim with ⟨_, -, -, heq⟩ |
        ⟨hnone, hcloses, ⟨_, hticket, -, heq⟩ | ⟨hfree, -, heq⟩⟩
      · rw [heq]
        exact .idle
      · rw [heq]
        exact .wait hnone hcloses hticket
      · rw [heq]
        exact .owner hnone hcloses hfree
  | complete slot result =>
    cases hguard : session.guard? slot with
    | none => rw [act, complete?, hguard]; exact .idle
    | some key =>
      rw [act_of_publishes hguard (.complete result)]
      exact .release hguard (.complete result)
  | drop slot =>
    cases hguard : session.guard? slot with
    | none => rw [act, drop?, hguard]; exact .idle
    | some key =>
      rw [act_of_publishes hguard .drop]
      exact .release hguard .drop
  | poll slot =>
    rw [act, poll?, ← wait?]
    cases hwait : session.wait? slot with
    | none => exact .idle
    | some wait =>
      rw [Option.map_some]
      cases hsettled : session.settled? wait with
      | none => exact .idle
      | some result => exact .collect hwait hsettled
  | put key node => exact .put
  | clear => exact .clear

/-! ## Runs -/

/-- The session after some actions, one after the other. -/
def run (session : ClaimSession ν) (actions : List (Action ν)) : ClaimSession ν :=
  actions.foldl act session

/-- Each of some actions is allowed in the session in which it is taken. -/
def Along (allowed : ClaimSession ν → Action ν → Prop) : ClaimSession ν → List (Action ν) → Prop
  | _, [] => True
  | session, action :: rest => allowed session action ∧ Along allowed (session.act action) rest

theorem run_append (session : ClaimSession ν) (front back : List (Action ν)) :
    session.run (front ++ back) = (session.run front).run back :=
  List.foldl_append

theorem along_append {allowed : ClaimSession ν → Action ν → Prop} {front back : List (Action ν)} :
    Along allowed session (front ++ back) ↔
      Along allowed session front ∧ Along allowed (session.run front) back := by
  induction front generalizing session with
  | nil => simp [Along, run]
  | cons action rest ih =>
    rw [List.cons_append, Along, ih, Along, and_assoc]
    rfl

/-- What every allowed action keeps, a run of allowed actions keeps. -/
theorem run_invariant {allowed : ClaimSession ν → Action ν → Prop} {I : ClaimSession ν → Prop}
    (hstep : ∀ session action, I session → allowed session action → I (session.act action))
    {actions : List (Action ν)} (hsession : I session) (h : Along allowed session actions) :
    I (session.run actions) := by
  induction actions generalizing session with
  | nil => exact hsession
  | cons action rest ih => exact ih (hstep _ _ hsession h.1) h.2

/-- What every action keeps, every run keeps. -/
theorem run_kept {I : ClaimSession ν → Prop}
    (hstep : ∀ session action, I session → I (session.act action)) (hsession : I session)
    (actions : List (Action ν)) : I (session.run actions) := by
  induction actions generalizing session with
  | nil => exact hsession
  | cons action rest ih => exact ih (hstep _ _ hsession)

end ClaimSession
end Lineage
