import Lineage.Services

set_option autoImplicit false

/-! # Looking up what a reference refers to

From a position to the class and interface declarations it refers to: first the definition places of
the position, then the declaration at each place. Declarations once found, or found to be missing,
are remembered by place until the memo is emptied, so the listing service sees each place at most
once; a failed search is not remembered and so is tried again. -/

namespace Lineage

/-- The declarations already looked up, by place. -/
abbrev LookupMemo := Assoc Location (Option Declaration)

/-- The state of the services together with the memo. -/
structure LookupState (σ : Type) where
  world : σ
  memo : LookupMemo

/-- A lookup: it may ask the services and extend the memo, and fails if a service does. -/
abbrev Lookup (σ α : Type) := ExceptT ServiceFailure (StateM (LookupState σ)) α

namespace Lookup

variable {σ : Type}

/-- Nothing looked up yet. -/
def start (world : σ) : LookupState σ := ⟨world, []⟩

/-- Forgets what was looked up. -/
def clear (state : LookupState σ) : LookupState σ := { state with memo := [] }

/-- Calls a service. -/
def call {α : Type} (service : ServiceCall σ α) : Lookup σ α :=
  fun state =>
    let (answer, world) := service.run.run state.world
    (answer, { state with world := world })

/-- The declaration at a place, from the memo or else from the services. -/
def declarationAt (services : Services σ) (location : Location) :
    Lookup σ (Option Declaration) := do
  match (← get).memo.get? location with
  | some found => return found
  | none =>
    let found ← call (services.findDeclaration location.uri location.range)
    modify fun state => { state with memo := state.memo.insert location found }
    return found

/-- The class and interface declarations that the reference at a position refers to. Places without
    a declaration and declarations of other kinds are left out. -/
def definitionsAt (services : Services σ) (uri : String) (position : Position) :
    Lookup σ (List Declaration) := do
  let locations ← call (services.resolveDefinitions uri position)
  let found ← locations.mapM (declarationAt services)
  return (found.filterMap id).filter fun declaration => declaration.kind.isType

end Lookup
end Lineage
