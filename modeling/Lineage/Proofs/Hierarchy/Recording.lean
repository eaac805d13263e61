import Lineage.Proofs.Hierarchy.Steps

set_option autoImplicit false

/-! # Resolutions on the record

`Services.recording` are services that also keep what each definition lookup answered. A resolution
does not see the record: over recording services it answers what it answers over the plain ones and
leaves the same state, with the record beside it (`exec_resolve_recorded`). So what is proved of the
lookups on record holds of the lookups that the plain services were asked for. -/

namespace Lineage

variable {ε τ τ' α β : Type}

/-! ## Actions that mirror each other -/

/-- An action does what a plain one does, once a part of its state is forgotten. -/
def Mirrors (forget : τ' → τ) (action : ExceptT ε (StateM τ') α)
    (plain : ExceptT ε (StateM τ) α) : Prop :=
  ∀ s, exec plain (forget s) = ((exec action s).1, forget (exec action s).2)

namespace Mirrors

variable {forget : τ' → τ}

theorem pure (a : α) :
    Mirrors forget (Pure.pure a : ExceptT ε (StateM τ') α) (Pure.pure a) := fun _ => rfl

theorem throw (e : ε) :
    Mirrors forget (MonadExcept.throw e : ExceptT ε (StateM τ') α) (MonadExcept.throw e) :=
  fun _ => rfl

theorem bind {action : ExceptT ε (StateM τ') α} {plain : ExceptT ε (StateM τ) α}
    {next : α → ExceptT ε (StateM τ') β} {next' : α → ExceptT ε (StateM τ) β}
    (h : Mirrors forget action plain) (hnext : ∀ a, Mirrors forget (next a) (next' a)) :
    Mirrors forget (action >>= next) (plain >>= next') := by
  intro s
  rw [exec_bind, exec_bind, h s]
  rcases exec action s with ⟨e | a, s'⟩
  · rfl
  · exact hnext a s'

theorem mapM {action : α → ExceptT ε (StateM τ') β} {plain : α → ExceptT ε (StateM τ) β}
    (h : ∀ a, Mirrors forget (action a) (plain a)) (as : List α) :
    Mirrors forget (as.mapM action) (as.mapM plain) := by
  induction as with
  | nil => exact fun _ => rfl
  | cons a as ih =>
    rw [List.mapM_cons, List.mapM_cons]
    exact (h a).bind fun b => ih.bind fun bs => pure (b :: bs)

end Mirrors

/-! ## Lookups over services that mirror each other -/

variable {σ : Type}

/-- Services over a larger state answer what plain ones answer, once a part of the state is
    forgotten. -/
structure Services.Mirror (forget : τ → σ) (services : Services τ) (plain : Services σ) : Prop where
  resolveDefinitions : ∀ uri position,
    Mirrors forget (services.resolveDefinitions uri position) (plain.resolveDefinitions uri position)
  findDeclaration : ∀ uri range,
    Mirrors forget (services.findDeclaration uri range) (plain.findDeclaration uri range)

/-- A state of lookups with another state of the services. -/
def LookupState.mapWorld (forget : τ → σ) (s : LookupState τ) : LookupState σ :=
  ⟨forget s.world, s.memo⟩

namespace Lookup

variable {forget : τ → σ} {services : Services τ} {plain : Services σ}

theorem mirrors_call {service : ServiceCall τ α} {service' : ServiceCall σ α}
    (h : Mirrors forget service service') :
    Mirrors (LookupState.mapWorld forget) (call service) (call service') := by
  intro s
  have hworld := h s.world
  rw [exec_call, exec_call]
  simp only [LookupState.mapWorld, hworld]

theorem mirrors_declarationAt (h : Services.Mirror forget services plain) (location : Location) :
    Mirrors (LookupState.mapWorld forget) (declarationAt services location)
      (declarationAt plain location) := by
  intro s
  have hfound := h.findDeclaration location.uri location.range s.world
  rw [exec_declarationAt, exec_declarationAt]
  simp only [LookupState.mapWorld, hfound]
  cases s.memo.get? location with
  | some found => rfl
  | none =>
    rcases exec (services.findDeclaration location.uri location.range) s.world with
      ⟨failure | found, world⟩
    · rfl
    · rfl

/-- Lookups see of the services only what these answer. -/
theorem mirrors_definitionsAt (h : Services.Mirror forget services plain) (uri : String)
    (position : Position) :
    Mirrors (LookupState.mapWorld forget) (definitionsAt services uri position)
      (definitionsAt plain uri position) := by
  unfold definitionsAt
  refine (mirrors_call (h.resolveDefinitions uri position)).bind fun locations => ?_
  exact (Mirrors.mapM (mirrors_declarationAt h) locations).bind fun found => .pure _

end Lookup

/-! ## Recording services -/

/-- A state with the answers of all definition lookups so far. -/
abbrev Recorded (σ : Type) := σ × List (List Location)

/-- A service call that leaves the record alone. -/
def ServiceCall.offRecord (call : ServiceCall σ α) : ServiceCall (Recorded σ) α :=
  fun state => ((exec call state.1).1, (exec call state.1).2, state.2)

/-- Services that keep what each definition lookup answered. -/
def Services.recording (services : Services σ) : Services (Recorded σ) where
  listDeclarations uri := ServiceCall.offRecord (services.listDeclarations uri)
  resolveDefinitions uri position := do
    let locations ← ServiceCall.offRecord (services.resolveDefinitions uri position)
    modify fun state => (state.1, state.2 ++ [locations])
    return locations
  findDeclaration uri range := ServiceCall.offRecord (services.findDeclaration uri range)
  languageId? := services.languageId?
  declarationKeys := services.declarationKeys

def LookupState.forget (s : LookupState (Recorded σ)) : LookupState σ :=
  ⟨s.world.1, s.memo⟩

def BuildState.forget (s : BuildState (Recorded σ)) : BuildState σ :=
  ⟨s.lookups.forget, s.claims, s.built⟩

@[simp] theorem BuildState.forget_lookups (s : BuildState (Recorded σ)) :
    s.forget.lookups = s.lookups.forget := rfl

@[simp] theorem BuildState.forget_claims (s : BuildState (Recorded σ)) :
    s.forget.claims = s.claims := rfl

/-- A state of a builder with a record beside it. -/
def BuildState.recorded (s : BuildState σ) (record : List (List Location)) :
    BuildState (Recorded σ) :=
  ⟨⟨(s.lookups.world, record), s.lookups.memo⟩, s.claims, s.built⟩

/-- The record of the lookups of a builder. -/
def BuildState.record (s : BuildState (Recorded σ)) : List (List Location) :=
  s.lookups.world.2

namespace Services

variable (services : Services σ)

theorem exec_recording_resolveDefinitions (uri : String) (position : Position)
    (world : Recorded σ) :
    exec (services.recording.resolveDefinitions uri position) world =
      match exec (services.resolveDefinitions uri position) world.1 with
      | (.error failure, after) => (.error failure, after, world.2)
      | (.ok locations, after) => (.ok locations, after, world.2 ++ [locations]) := by
  show exec (ServiceCall.offRecord (services.resolveDefinitions uri position) >>= _) world = _
  rw [exec_bind]
  have hcall : exec (ServiceCall.offRecord (services.resolveDefinitions uri position)) world =
      ((exec (services.resolveDefinitions uri position) world.1).1,
        (exec (services.resolveDefinitions uri position) world.1).2, world.2) := rfl
  rw [hcall]
  rcases exec (services.resolveDefinitions uri position) world.1 with ⟨failure | locations, after⟩
  · rfl
  · rfl

theorem exec_recording_findDeclaration (uri : String) (range : Range) (world : Recorded σ) :
    exec (services.recording.findDeclaration uri range) world =
      ((exec (services.findDeclaration uri range) world.1).1,
        (exec (services.findDeclaration uri range) world.1).2, world.2) := rfl

/-- Keeping a record changes no answer. -/
theorem recording_mirror : Mirror Prod.fst services.recording services where
  resolveDefinitions uri position world := by
    rw [services.exec_recording_resolveDefinitions]
    rcases exec (services.resolveDefinitions uri position) world.1 with ⟨failure | locations, after⟩
    · rfl
    · rfl
  findDeclaration uri range world := by
    rw [services.exec_recording_findDeclaration]

end Services

/-! ## Lookups -/

namespace Lookup

variable (services : Services σ)

theorem declarationAt_record (location : Location) (s : LookupState (Recorded σ)) :
    (exec (declarationAt services.recording location) s).2.world.2 = s.world.2 := by
  rw [exec_declarationAt, services.exec_recording_findDeclaration]
  cases s.memo.get? location with
  | some found => rfl
  | none =>
    rcases exec (services.findDeclaration location.uri location.range) s.world.1 with
      ⟨failure | found, world⟩
    · rfl
    · rfl

/-- Each definition lookup that answers is on record once. -/
theorem definitionsAt_record {uri : String} {position : Position}
    {s s' : LookupState (Recorded σ)} {found : List Declaration}
    (h : exec (definitionsAt services.recording uri position) s = (.ok found, s')) :
    ∃ locations, s'.world.2 = s.world.2 ++ [locations] := by
  rw [exec_definitionsAt, services.exec_recording_resolveDefinitions] at h
  rcases hcall : exec (services.resolveDefinitions uri position) s.world.1 with
    ⟨failure | locations, world⟩ <;> rw [hcall] at h
  · cases h
  · have hkept := exec_mapM_invariant
      (I := fun s' : LookupState (Recorded σ) => s'.world.2 = s.world.2 ++ [locations])
      (fun location s' hs' => (declarationAt_record services location s').trans hs') locations
      (s := { s with world := (world, s.world.2 ++ [locations]) }) rfl
    dsimp only at h
    rcases hout : exec (locations.mapM (declarationAt services.recording))
      { s with world := (world, s.world.2 ++ [locations]) } with ⟨failure | declarations, s''⟩ <;>
      rw [hout] at h hkept <;> cases h
    exact ⟨locations, hkept⟩

end Lookup

/-! ## Resolutions -/

namespace Build

variable (services : Services σ)

theorem mirrors_lookup {action : Lookup (Recorded σ) α} {plain : Lookup σ α}
    (h : Mirrors LookupState.forget action plain) :
    Mirrors BuildState.forget (lookup action) (lookup plain) := by
  intro s
  rw [exec_lookup, exec_lookup, BuildState.forget_lookups, h s.lookups]
  rfl

theorem mirrors_resolveReferences {resolve : Declaration → Build (Recorded σ) TypeNode}
    {plain : Declaration → Build σ TypeNode}
    (h : ∀ target, Mirrors BuildState.forget (resolve target) (plain target)) (uri : String)
    (positions : List Position) :
    Mirrors BuildState.forget (resolveReferences services.recording resolve uri positions)
      (resolveReferences services plain uri positions) := by
  unfold resolveReferences
  refine Mirrors.bind (Mirrors.mapM (fun position => ?_) positions) fun targets =>
    Mirrors.mapM h targets.flatten
  exact mirrors_lookup (Lookup.mirrors_definitionsAt services.recording_mirror uri position)

theorem mirrors_buildNode {resolve : Declaration → Build (Recorded σ) TypeNode}
    {plain : Declaration → Build σ TypeNode}
    (h : ∀ target, Mirrors BuildState.forget (resolve target) (plain target))
    (declaration : Declaration) (kind : TypeKind) :
    Mirrors BuildState.forget (buildNode services.recording resolve declaration kind)
      (buildNode services plain declaration kind) := by
  unfold buildNode
  cases declaration.references? kind with
  | none => exact .throw _
  | some references =>
    refine (mirrors_resolveReferences services h _ _).bind fun superClasses => ?_
    refine (mirrors_resolveReferences services h _ _).bind fun superInterfaces => ?_
    exact fun s => rfl

theorem mirrors_resolveFrom (depth : Nat) (requester : Option DeclarationKey)
    (declaration : Declaration) :
    Mirrors BuildState.forget (resolveFrom services.recording depth requester declaration)
      (resolveFrom services depth requester declaration) := by
  induction depth generalizing requester declaration with
  | zero => exact .throw _
  | succ depth ih =>
    intro s
    rw [exec_resolveFrom_succ, exec_resolveFrom_succ]
    cases declaration.typeKind with
    | error error => rfl
    | ok kind =>
      simp only [BuildState.forget_claims]
      rcases s.claims.claim declaration.key requester with cycle | ⟨answer, claims⟩
      · rfl
      · cases answer with
        | ready node => rfl
        | wait ticket => rfl
        | owner =>
          have hbuilt := mirrors_buildNode services (ih (some declaration.key)) declaration kind
            { s with claims := claims }
          have hforget : { s.forget with claims := claims } =
            BuildState.forget { s with claims := claims } := rfl
          simp only [hforget, hbuilt]
          rfl

/-- Several resolutions over recording services do what they do over the plain ones. -/
theorem exec_resolve_recorded (roots : List Declaration) (s : BuildState σ)
    (record : List (List Location)) :
    ∃ record', exec (roots.mapM (resolve services.recording)) (s.recorded record) =
      ((exec (roots.mapM (resolve services)) s).1,
        (exec (roots.mapM (resolve services)) s).2.recorded record') := by
  have hmirrors := Mirrors.mapM (mirrors_resolveFrom services (depthBound services) none) roots
    (s.recorded record)
  have hforget : (s.recorded record).forget = s := rfl
  rw [hforget] at hmirrors
  refine ⟨(exec (roots.mapM (resolve services.recording)) (s.recorded record)).2.record, ?_⟩
  show _ = ((exec (roots.mapM (resolveFrom services (depthBound services) none)) s).1,
    (exec (roots.mapM (resolveFrom services (depthBound services) none)) s).2.recorded _)
  rw [hmirrors]
  rfl

end Build
end Lineage
