import Lineage.Declaration

set_option autoImplicit false

/-! # Failures

What can go wrong while a declaration is resolved. A reference without a known target is not among
it: it simply contributes no ancestor. -/

namespace Lineage

/-- The questions that language services answer. -/
inductive ServiceOperation where
  | listTypeDeclarations
  | resolveDefinitions
deriving DecidableEq

/-- The name of an operation in messages. -/
def ServiceOperation.name : ServiceOperation → String
  | listTypeDeclarations => "listTypeDeclarations"
  | resolveDefinitions => "resolveDefinitions"

/-- A failure that a language service reports. -/
structure ServiceFailure where
  operation : ServiceOperation
  uri : String
  /-- The service's own words. -/
  detail : String
deriving DecidableEq

/-- A service failure in words. -/
def ServiceFailure.message (failure : ServiceFailure) : String :=
  failure.operation.name ++ " failed for " ++ failure.uri ++ ": " ++ failure.detail

/-- Why a declaration could not be resolved. -/
inductive ResolveError where
  /-- Neither a class nor an interface. -/
  | invalidKind (name : String) (kind : SymbolKind)
  /-- Following the supertypes led back to a declaration still being resolved; the list starts and
      ends with it. -/
  | cyclic (cycle : List DeclarationKey)
  | service (failure : ServiceFailure)
  /-- The resolution that owned the declaration ended without a result. -/
  | abandoned (name : String)
deriving DecidableEq

/-- The wording of an error. -/
def ResolveError.message : ResolveError → String
  | invalidKind name kind => "`" ++ name ++ "` is a " ++ kind.title ++ ", expected a class or interface"
  | cyclic cycle => "cyclic type hierarchy: " ++ " -> ".intercalate (cycle.map DeclarationKey.name)
  | service failure => failure.message
  | abandoned name => "resolution of `" ++ name ++ "` was abandoned before completing"

/-- The role of a declaration in a type hierarchy, or the error for one that has none. -/
def Declaration.typeKind (declaration : Declaration) : Except ResolveError TypeKind :=
  match declaration.kind.typeKind? with
  | some kind => .ok kind
  | none => .error (.invalidKind declaration.name declaration.kind)

end Lineage
