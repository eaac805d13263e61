import Mathlib.Data.List.Forall2

set_option autoImplicit false

/-! # Running stateful actions that may fail

Service calls, lookups and build steps are all actions over some state that answer or fail, and whose
changes stay when they fail. `exec` runs such an action to its answer and final state; the equations
here say how it passes through sequencing and through `mapM`. With them a proof about an action speaks
of plain pairs and never opens the monad. -/

namespace Lineage

variable {ε τ α β : Type}

/-- What an action answers and the state it leaves. -/
def exec (action : ExceptT ε (StateM τ) α) (state : τ) : Except ε α × τ :=
  action.run.run state

/-! ## Single steps -/

@[simp] theorem exec_pure (a : α) (s : τ) :
    exec (pure a : ExceptT ε (StateM τ) α) s = (.ok a, s) := rfl

@[simp] theorem exec_throw (e : ε) (s : τ) :
    exec (throw e : ExceptT ε (StateM τ) α) s = (.error e, s) := rfl

@[simp] theorem exec_get (s : τ) : exec (get : ExceptT ε (StateM τ) τ) s = (.ok s, s) := rfl

@[simp] theorem exec_modify (f : τ → τ) (s : τ) :
    exec (modify f : ExceptT ε (StateM τ) Unit) s = (.ok (), f s) := rfl

theorem exec_bind (x : ExceptT ε (StateM τ) α) (f : α → ExceptT ε (StateM τ) β) (s : τ) :
    exec (x >>= f) s =
      match exec x s with
      | (.ok a, s') => exec (f a) s'
      | (.error e, s') => (.error e, s') := by
  unfold exec
  rw [ExceptT.run_bind, StateT.run_bind]
  rcases x.run.run s with ⟨_ | _, _⟩ <;> rfl

/-! ## Lists of steps -/

@[simp] theorem exec_mapM_nil (f : α → ExceptT ε (StateM τ) β) (s : τ) :
    exec ([].mapM f) s = (.ok [], s) := rfl

theorem exec_mapM_cons (f : α → ExceptT ε (StateM τ) β) (a : α) (as : List α) (s : τ) :
    exec ((a :: as).mapM f) s =
      match exec (f a) s with
      | (.error e, s') => (.error e, s')
      | (.ok b, s') =>
        match exec (as.mapM f) s' with
        | (.error e, s'') => (.error e, s'')
        | (.ok bs, s'') => (.ok (b :: bs), s'') := by
  rw [List.mapM_cons, exec_bind]
  rcases exec (f a) s with ⟨_ | b, s'⟩
  · rfl
  · simp only [exec_bind]
    rcases exec (as.mapM f) s' with ⟨_ | bs, s''⟩ <;> rfl

/-- What every step keeps, a list of steps keeps. -/
theorem exec_mapM_invariant {I : τ → Prop} {f : α → ExceptT ε (StateM τ) β}
    (hstep : ∀ a s, I s → I (exec (f a) s).2) (as : List α) {s : τ} (hs : I s) :
    I (exec (as.mapM f) s).2 := by
  induction as generalizing s with
  | nil => exact hs
  | cons a as ih =>
    have ha := hstep a s hs
    rw [exec_mapM_cons]
    rcases hfa : exec (f a) s with ⟨_ | b, s'⟩ <;> rw [hfa] at ha
    · exact ha
    · have has := ih ha
      dsimp only
      rcases hrest : exec (as.mapM f) s' with ⟨_ | bs, s''⟩ <;> rw [hrest] at has <;> exact has

/-- A list of steps fails only with the failure of one of them, in a state that the steps before it
    have left. -/
theorem exec_mapM_error_of_invariant {I : τ → Prop} {f : α → ExceptT ε (StateM τ) β}
    (hstep : ∀ a s, I s → I (exec (f a) s).2) {as : List α} {s : τ} (hs : I s) {e : ε}
    (h : (exec (as.mapM f) s).1 = .error e) :
    ∃ a ∈ as, ∃ s', I s' ∧ (exec (f a) s').1 = .error e := by
  induction as generalizing s with
  | nil => cases h
  | cons a as ih =>
    have ha := hstep a s hs
    rw [exec_mapM_cons] at h
    rcases hfa : exec (f a) s with ⟨_ | b, s'⟩ <;> rw [hfa] at h ha
    · cases h
      exact ⟨a, List.mem_cons_self, s, hs, by rw [hfa]⟩
    · dsimp only at h
      rcases hrest : exec (as.mapM f) s' with ⟨_ | bs, s''⟩ <;> rw [hrest] at h
      · obtain ⟨a', ha', found⟩ := ih ha (by rw [hrest]; exact h)
        exact ⟨a', List.mem_cons_of_mem _ ha', found⟩
      · cases h

theorem exec_mapM_error {f : α → ExceptT ε (StateM τ) β} {as : List α} {s : τ} {e : ε}
    (h : (exec (as.mapM f) s).1 = .error e) : ∃ a ∈ as, ∃ s', (exec (f a) s').1 = .error e := by
  obtain ⟨a, ha, s', -, hfail⟩ :=
    exec_mapM_error_of_invariant (I := fun _ => True) (fun _ _ _ => trivial) trivial h
  exact ⟨a, ha, s', hfail⟩

/-- A list of steps that fails has come to a step that fails, past steps that have not. -/
theorem exists_split_of_exec_mapM_error {f : α → ExceptT ε (StateM τ) β} {as : List α} {s : τ} {e : ε}
    (h : (exec (as.mapM f) s).1 = .error e) :
    ∃ before a after bs s', as = before ++ a :: after ∧
      exec (before.mapM f) s = (.ok bs, s') ∧ (exec (f a) s').1 = .error e := by
  induction as generalizing s with
  | nil => cases h
  | cons a as ih =>
    rw [exec_mapM_cons] at h
    rcases hfa : exec (f a) s with ⟨_ | b, s'⟩ <;> rw [hfa] at h
    · cases h
      exact ⟨[], a, as, [], s, rfl, rfl, by rw [hfa]⟩
    · dsimp only at h
      rcases hrest : exec (as.mapM f) s' with ⟨_ | bs, s''⟩ <;> rw [hrest] at h
      · obtain ⟨before, a', after, bs, s₁, rfl, hbefore, hfail⟩ := ih (by rw [hrest]; exact h)
        refine ⟨a :: before, a', after, b :: bs, s₁, rfl, ?_, hfail⟩
        rw [exec_mapM_cons, hfa]
        dsimp only
        rw [hbefore]
      · cases h

/-- A list of steps ends with the first step that fails. -/
theorem exec_mapM_of_error {f : α → ExceptT ε (StateM τ) β} {before : List α} {a : α}
    {s s' s'' : τ} {bs : List β} {e : ε} (after : List α)
    (hbefore : exec (before.mapM f) s = (.ok bs, s')) (ha : exec (f a) s' = (.error e, s'')) :
    exec ((before ++ a :: after).mapM f) s = (.error e, s'') := by
  induction before generalizing s bs with
  | nil =>
    cases hbefore
    rw [List.nil_append, exec_mapM_cons, ha]
  | cons first rest ih =>
    rw [exec_mapM_cons] at hbefore
    rw [List.cons_append, exec_mapM_cons]
    rcases hfirst : exec (f first) s with ⟨_ | b, s₁⟩ <;> rw [hfirst] at hbefore
    · cases hbefore
    · dsimp only at hbefore
      rcases hrest : exec (rest.mapM f) s₁ with ⟨_ | bs', s₂⟩ <;> rw [hrest] at hbefore <;>
        cases hbefore
      dsimp only
      rw [ih hrest]

/-- Steps whose answers depend on nothing but their argument answer as a list what they answer one by
    one. -/
theorem exec_mapM_of_answers {I : τ → Prop} {f : α → ExceptT ε (StateM τ) β} {g : α → Except ε β}
    (hstep : ∀ a s, I s → (exec (f a) s).1 = g a ∧ I (exec (f a) s).2) (as : List α) {s : τ}
    (hs : I s) : (exec (as.mapM f) s).1 = as.mapM g := by
  induction as generalizing s with
  | nil => rfl
  | cons a as ih =>
    obtain ⟨hanswer, hkept⟩ := hstep a s hs
    rw [exec_mapM_cons, List.mapM_cons, ← hanswer]
    rcases hfa : exec (f a) s with ⟨_ | b, s'⟩ <;> rw [hfa] at hkept
    · rfl
    · rw [← ih hkept]
      dsimp only
      rcases exec (as.mapM f) s' with ⟨_ | bs, s''⟩ <;> rfl

/-! ## What actions keep and answer -/

/-- From states in which `I` holds the action leaves such states, what it answers satisfies `P`, and it
    fails only with what satisfies `E`. -/
def Ensures (I : τ → Prop) (action : ExceptT ε (StateM τ) α) (P : α → Prop) (E : ε → Prop) : Prop :=
  ∀ s, I s → I (exec action s).2 ∧
    match (exec action s).1 with
    | .ok a => P a
    | .error e => E e

namespace Ensures

variable {I : τ → Prop} {P : α → Prop} {Q : β → Prop} {E : ε → Prop}

theorem pure {a : α} (h : P a) : Ensures I (Pure.pure a : ExceptT ε (StateM τ) α) P E :=
  fun _ hs => ⟨hs, h⟩

theorem throw {e : ε} (h : E e) : Ensures I (throw e : ExceptT ε (StateM τ) α) P E :=
  fun _ hs => ⟨hs, h⟩

theorem get : Ensures I (MonadState.get : ExceptT ε (StateM τ) τ) I E :=
  fun _ hs => ⟨hs, hs⟩

theorem modify {f : τ → τ} (h : ∀ s, I s → I (f s)) :
    Ensures I (modify f : ExceptT ε (StateM τ) Unit) (fun _ => True) E :=
  fun s hs => ⟨h s hs, trivial⟩

theorem bind {x : ExceptT ε (StateM τ) α} {f : α → ExceptT ε (StateM τ) β} (hx : Ensures I x P E)
    (hf : ∀ a, P a → Ensures I (f a) Q E) : Ensures I (x >>= f) Q E := by
  intro s hs
  obtain ⟨hkept, hanswer⟩ := hx s hs
  rw [exec_bind]
  rcases hout : exec x s with ⟨e | a, s'⟩ <;> rw [hout] at hkept hanswer
  · exact ⟨hkept, hanswer⟩
  · exact hf a hanswer s' hkept

theorem mono_error {E' : ε → Prop} {action : ExceptT ε (StateM τ) α} (h : Ensures I action P E)
    (himp : ∀ e, E e → E' e) : Ensures I action P E' := by
  intro s hs
  obtain ⟨hkept, hanswer⟩ := h s hs
  refine ⟨hkept, ?_⟩
  cases hout : (exec action s).1 with
  | ok a =>
    rw [hout] at hanswer
    exact hanswer
  | error e =>
    rw [hout] at hanswer
    exact himp e hanswer

/-- What every step ensures of its own answer, a list of steps ensures of all. -/
theorem mapM {f : α → ExceptT ε (StateM τ) β} {R : α → β → Prop} {as : List α}
    (hstep : ∀ a ∈ as, Ensures I (f a) (R a) E) : Ensures I (as.mapM f) (List.Forall₂ R as) E := by
  induction as with
  | nil => exact .pure .nil
  | cons a as ih =>
    have hrest := ih fun a' ha' => hstep a' (List.mem_cons_of_mem _ ha')
    rw [List.mapM_cons]
    exact .bind (hstep a List.mem_cons_self) fun b hb =>
      .bind hrest fun bs hbs => .pure (.cons hb hbs)

end Ensures

end Lineage
