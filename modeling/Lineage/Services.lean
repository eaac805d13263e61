import Lineage.Failure
import Lineage.Workspace

set_option autoImplicit false

/-! # Language services

What the resolution of supertypes asks of a language server. A service call may change the state
`σ` of the server and may fail. It answers at once: whatever a server does that never makes its caller
wait, however it changes its mind between calls, is a value of `Services σ`. When answers come is no
part of it; resolutions over a server that answers later are those of `Build.resolveSuspended`. A
workspace answers from memory, never fails and counts the calls. -/

namespace Lineage

/-- A service call: it reads and changes the server's state and answers or fails. -/
abbrev ServiceCall (σ α : Type) := ExceptT ServiceFailure (StateM σ) α

/-- The services of a language server with state `σ`. -/
structure Services (σ : Type) where
  /-- The class and interface declarations of a document. -/
  listDeclarations : String → ServiceCall σ (List Declaration)
  /-- The places where what is written at a position is defined. -/
  resolveDefinitions : String → Position → ServiceCall σ (List Location)
  /-- The declaration of a document with exactly this range. -/
  findDeclaration : String → Range → ServiceCall σ (Option Declaration)
  /-- The language of a document, if known. -/
  languageId? : String → Option String
  /-- The keys of all declarations these services answer with. They bound how deep supertypes can
      nest. -/
  declarationKeys : List DeclarationKey

/-- Finds a declaration by its exact range in the listing of its document. -/
def findInListing {σ : Type} (list : String → ServiceCall σ (List Declaration)) (uri : String)
    (range : Range) : ServiceCall σ (Option Declaration) := do
  let declarations ← list uri
  return declarations.find? fun declaration => declaration.range = range

/-! ## Services of a workspace -/

/-- How often each service was called. -/
structure ServiceCounts where
  symbolListings : Nat
  definitionLookups : Nat
deriving DecidableEq

namespace ServiceCounts

/-- No calls yet. -/
def zero : ServiceCounts := ⟨0, 0⟩

/-- One more listing. -/
def countListing (counts : ServiceCounts) : ServiceCounts :=
  { counts with symbolListings := counts.symbolListings + 1 }

/-- One more definition lookup. -/
def countLookup (counts : ServiceCounts) : ServiceCounts :=
  { counts with definitionLookups := counts.definitionLookups + 1 }

end ServiceCounts

namespace Workspace

/-- Lists the declarations of a document and counts the call. -/
def listDeclarations (workspace : Workspace) (uri : String) :
    ServiceCall ServiceCounts (List Declaration) := do
  modify ServiceCounts.countListing
  return workspace.declarations uri

/-- Looks up the definitions at a position and counts the call. -/
def resolveDefinitions (workspace : Workspace) (uri : String) (position : Position) :
    ServiceCall ServiceCounts (List Location) := do
  modify ServiceCounts.countLookup
  return workspace.definitionsAt uri position

/-- The services of a workspace. -/
def services (workspace : Workspace) : Services ServiceCounts where
  listDeclarations := workspace.listDeclarations
  resolveDefinitions := workspace.resolveDefinitions
  findDeclaration := findInListing workspace.listDeclarations
  languageId? := workspace.languageId?
  declarationKeys := workspace.declarationKeys

end Workspace
end Lineage
