import Lineage.Assoc
import Lineage.Declaration
import Lineage.Snapshot

set_option autoImplicit false

/-! # Workspaces

A workspace holds, for each document, the class and interface declarations of its outline. They are
flattened out of the symbol forest: files, modules, namespaces and packages are looked through, and
nothing inside any other symbol counts. Adding a document again replaces it and keeps its place. -/

namespace Lineage

/-! ## Declarations of an outline -/

mutual

/-- The declarations of one symbol: itself if it is a type, those inside it if it only groups. -/
def DocumentSymbol.declarations (make : DocumentSymbol → Declaration) :
    DocumentSymbol → List Declaration
  | ⟨name, detail, kind, range, selection, children⟩ =>
    if kind.isType then
      [make ⟨name, detail, kind, range, selection, children⟩]
    else if kind.isContainer then
      DocumentSymbol.declarationsOf make children
    else
      []

/-- The declarations of a forest of symbols, in order. -/
def DocumentSymbol.declarationsOf (make : DocumentSymbol → Declaration) :
    List DocumentSymbol → List Declaration
  | [] => []
  | symbol :: rest => symbol.declarations make ++ DocumentSymbol.declarationsOf make rest

end

/-- The class and interface declarations of a document. -/
def SourceDocument.declarations (document : SourceDocument) : List Declaration :=
  let source := LineMap.ofText document.text.toList
  DocumentSymbol.declarationsOf (Declaration.ofSymbol document.uri source) document.symbols

/-! ## The workspace -/

/-- What a workspace keeps of a document. -/
structure WorkspaceDocument where
  languageId : Option String
  declarations : List Declaration

/-- Documents by uri, in order of first addition, and definition links in order of addition. -/
structure Workspace where
  documents : Assoc String WorkspaceDocument
  definitions : List DefinitionLink

namespace Workspace

/-- A workspace without documents. -/
def empty : Workspace := ⟨[], []⟩

/-- Adds a document, or replaces the one with its uri. -/
def addDocument (workspace : Workspace) (document : SourceDocument) : Workspace :=
  { workspace with
    documents :=
      workspace.documents.insert document.uri ⟨document.languageId, document.declarations⟩ }

/-- Adds a definition link. -/
def addDefinition (workspace : Workspace) (link : DefinitionLink) : Workspace :=
  { workspace with definitions := workspace.definitions ++ [link] }

/-- The workspace of a snapshot. -/
def ofSnapshot (snapshot : Snapshot) : Workspace :=
  let documents := snapshot.documents.foldl addDocument empty
  snapshot.definitions.foldl addDefinition documents

/-- The uris of the documents, in order of first addition. -/
def uris (workspace : Workspace) : List String :=
  workspace.documents.keys

/-- The declarations of a document, none for an unknown one. -/
def declarations (workspace : Workspace) (uri : String) : List Declaration :=
  match workspace.documents.get? uri with
  | some document => document.declarations
  | none => []

/-- The first declaration of a document with a name. -/
def declaration? (workspace : Workspace) (uri name : String) : Option Declaration :=
  (workspace.declarations uri).find? fun declaration => declaration.name = name

/-- The places where what is written at a position is defined: the targets of all links whose range
    contains it, in order of addition. -/
def definitionsAt (workspace : Workspace) (uri : String) (position : Position) : List Location :=
  (workspace.definitions.filter fun link => link.uri = uri && link.range.contains position).flatMap
    DefinitionLink.targets

/-- The language of a document, if known. -/
def languageId? (workspace : Workspace) (uri : String) : Option String :=
  (workspace.documents.get? uri).bind WorkspaceDocument.languageId

/-- The keys of all declarations of a workspace. -/
def declarationKeys (workspace : Workspace) : List DeclarationKey :=
  workspace.documents.flatMap fun entry => entry.2.declarations.map Declaration.key

end Workspace
end Lineage
