import Lineage.Services

set_option autoImplicit false

/-! # Scripted services

Services in front of a workspace that fail on demand and answer some listings from a script instead
of the workspace. They serve to rehearse a language server that is busy, broken or inconsistent. A
failing call does not reach the workspace; a scripted listing does, and is counted there. Scripted
services know no languages. -/

namespace Lineage

/-- When a service call fails, and with which words. -/
structure FailureRule where
  uri : String
  /-- Only calls for a position on this line, if given. -/
  line : Option UInt32
  /-- How many calls are left to fail, without limit if not given. -/
  remaining : Option Nat
  detail : String
deriving DecidableEq

namespace FailureRule

/-- Whether a rule applies to a call for `uri`, on `line` if the call has a position. -/
def applies (rule : FailureRule) (uri : String) (line : Option UInt32) : Bool :=
  rule.uri = uri && (rule.line.isNone || rule.line = line) && rule.remaining != some 0

/-- The rule after one more failing call. -/
def use (rule : FailureRule) : FailureRule :=
  { rule with remaining := rule.remaining.map (· - 1) }

/-- The words of the first rule that applies, and the rules after the call. -/
def useFirst? (uri : String) (line : Option UInt32) :
    List FailureRule → Option (String × List FailureRule)
  | [] => none
  | rule :: rest =>
    if rule.applies uri line then
      some (rule.detail, rule.use :: rest)
    else
      (useFirst? uri line rest).map fun (detail, rules) => (detail, rule :: rules)

end FailureRule

/-- What scripted services do. -/
structure Script where
  listingFailures : List FailureRule
  lookupFailures : List FailureRule
  /-- Listings that replace those of the workspace. -/
  listings : Assoc String (List Declaration)

/-- The rules as they stand and the calls that reached the workspace. -/
structure ScriptState where
  listingFailures : List FailureRule
  lookupFailures : List FailureRule
  counts : ServiceCounts

namespace Script

/-- The state before any call. -/
def initial (script : Script) : ScriptState :=
  ⟨script.listingFailures, script.lookupFailures, .zero⟩

/-- Forwards a call to the workspace. -/
def forward {α : Type} (call : ServiceCall ServiceCounts α) : ServiceCall ScriptState α :=
  fun state =>
    let (answer, counts) := call.run.run state.counts
    (answer, { state with counts := counts })

/-- Lists the declarations of a document, from the script if it has a listing. -/
def listDeclarations (script : Script) (workspace : Workspace) (uri : String) :
    ServiceCall ScriptState (List Declaration) := do
  let state ← get
  match FailureRule.useFirst? uri none state.listingFailures with
  | some (detail, rules) =>
    set { state with listingFailures := rules }
    throw ⟨.listTypeDeclarations, uri, detail⟩
  | none =>
    let declarations ← forward (workspace.listDeclarations uri)
    return (script.listings.get? uri).getD declarations

/-- Looks up the definitions at a position. -/
def resolveDefinitions (workspace : Workspace) (uri : String) (position : Position) :
    ServiceCall ScriptState (List Location) := do
  let state ← get
  match FailureRule.useFirst? uri (some position.line) state.lookupFailures with
  | some (detail, rules) =>
    set { state with lookupFailures := rules }
    throw ⟨.resolveDefinitions, uri, detail⟩
  | none => forward (workspace.resolveDefinitions uri position)

/-- The services of a script in front of a workspace. -/
def services (script : Script) (workspace : Workspace) : Services ScriptState where
  listDeclarations := script.listDeclarations workspace
  resolveDefinitions := resolveDefinitions workspace
  findDeclaration := findInListing (script.listDeclarations workspace)
  languageId? := fun _ => none
  declarationKeys :=
    workspace.declarationKeys ++
      script.listings.flatMap fun entry => entry.2.map Declaration.key

end Script
end Lineage
