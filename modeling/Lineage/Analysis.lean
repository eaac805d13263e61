import Lineage.Classification
import Lineage.Hierarchy.Builder

set_option autoImplicit false

/-! # Analysis of a document

One pass over the declarations of a document: each is resolved and its members are classified. A
declaration that fails is noted as failed, and the pass goes on with the next, after a message about it
if those are wanted. How a declaration is resolved is a parameter, so that a pass can run over services
that answer at once (`Build.resolve`) or later (`Build.resolveSuspended`). -/

namespace Lineage

instance decidableEqExcept {ε α : Type} [DecidableEq ε] [DecidableEq α] : DecidableEq (Except ε α)
  | .error e, .error e' => decidable_of_iff (e = e') (by simp)
  | .ok a, .ok a' => decidable_of_iff (a = a') (by simp)
  | .error _, .ok _ => isFalse (by simp)
  | .ok _, .error _ => isFalse (by simp)

/-- The result for one declaration. -/
structure RootAnalysis where
  root : DeclarationKey
  outcome : Except ResolveError (List MemberPairing)
deriving DecidableEq

/-- The results for a document, one per declaration. -/
structure DocumentAnalysis where
  uri : String
  roots : List RootAnalysis
deriving DecidableEq

namespace DocumentAnalysis

/-- The pairings of all declarations that resolved. -/
def pairings (analysis : DocumentAnalysis) : List MemberPairing :=
  analysis.roots.flatMap fun root =>
    match root.outcome with
    | .ok pairings => pairings
    | .error _ => []

/-- The declarations that failed, with the reason. -/
def failures (analysis : DocumentAnalysis) : List (DeclarationKey × ResolveError) :=
  analysis.roots.filterMap fun root =>
    match root.outcome with
    | .ok _ => none
    | .error error => some (root.root, error)

end DocumentAnalysis

namespace Build

variable {σ : Type}

/-- Resolves and classifies one declaration. A failure is part of the result; only other halts stop
    the analysis. -/
def analyzeRootTraced (tracing : Tracing) (resolve : Declaration → Build σ TypeNode)
    (declaration : Declaration) : Build σ RootAnalysis := do
  match ← outcome (resolve declaration) with
  | .ok node => return ⟨declaration.key, .ok node.classify⟩
  | .error (.failed error) =>
    trace tracing .skipping declaration.key
    return ⟨declaration.key, .error error⟩
  | .error halt => throw halt

/-- Resolves and classifies one declaration without tracing. -/
def analyzeRoot (resolve : Declaration → Build σ TypeNode) (declaration : Declaration) :
    Build σ RootAnalysis :=
  analyzeRootTraced .off resolve declaration

/-- Analyzes the given declarations in a new pass. -/
def analyzeDeclarationsTraced (tracing : Tracing) (resolve : Declaration → Build σ TypeNode)
    (uri : String) (roots : List Declaration) : Build σ DocumentAnalysis := do
  modify beginPass
  let analyses ← roots.mapM (analyzeRootTraced tracing resolve)
  return ⟨uri, analyses⟩

/-- Analyzes the given declarations in a new pass without tracing. -/
def analyzeDeclarations (resolve : Declaration → Build σ TypeNode) (uri : String)
    (roots : List Declaration) : Build σ DocumentAnalysis :=
  analyzeDeclarationsTraced .off resolve uri roots

/-- Analyzes all classes and interfaces of a document. It fails only if they cannot be listed. -/
def analyzeDocumentTraced (tracing : Tracing) (services : Services σ)
    (resolve : Declaration → Build σ TypeNode) (uri : String) : Build σ DocumentAnalysis := do
  let declarations ← lookup (Lookup.call (services.listDeclarations uri))
  analyzeDeclarationsTraced tracing resolve uri
    (declarations.filter fun declaration => declaration.kind.isType)

/-- Analyzes all classes and interfaces of a document without tracing. -/
def analyzeDocument (services : Services σ) (resolve : Declaration → Build σ TypeNode)
    (uri : String) : Build σ DocumentAnalysis :=
  analyzeDocumentTraced .off services resolve uri

end Build
end Lineage
