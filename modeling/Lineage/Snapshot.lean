import Lineage.Symbol

set_option autoImplicit false

/-! # Workspace snapshots

What a language server reported for a workspace: the documents with their outlines, and for some
ranges the places where what is written there is defined. -/

namespace Lineage

/-- A document with its outline. -/
structure SourceDocument where
  uri : String
  languageId : Option String
  text : String
  symbols : List DocumentSymbol

/-- A range of a document and the places where what is written there is defined. -/
structure DefinitionLink where
  uri : String
  range : Range
  targets : List Location
deriving DecidableEq

/-- The documents and definition links of a workspace. -/
structure Snapshot where
  documents : List SourceDocument
  definitions : List DefinitionLink

end Lineage
