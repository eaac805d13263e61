import Lineage.Command.Folder
import Lineage.Command.Report
import Lineage.Wire.Snapshot

set_option autoImplicit false

/-! # Running the command

From the contents of the files named on the command line to the report. The snapshot is read first,
then the configuration, and only then the documents asked for are checked. -/

namespace Lineage

/-! ## Errors -/

/-- Why there is no report. -/
inductive CommandError where
  | snapshotUnreadable (path : String) (fault : FileFault)
  | snapshotInvalid (path : String) (error : ReadError)
  | configUnreadable (path : String) (fault : FileFault)
  | configInvalid (path : String) (error : ReadError)
  | unknownDocument (uri : String)
  | analysisHalted (uri : String) (halt : Halt)

/-- The wording of an error, without its cause. -/
def CommandError.message : CommandError → String
  | snapshotUnreadable path _ => "failed to read snapshot " ++ path
  | snapshotInvalid path _ => "invalid workspace snapshot " ++ path
  | configUnreadable path _ => "failed to read config " ++ path
  | configInvalid path _ => "invalid lens config " ++ path
  | unknownDocument uri => "document " ++ uri ++ " is not in the snapshot"
  | analysisHalted uri _ => "failed to analyze " ++ uri

/-! ## Reports of a workspace -/

namespace Report

/-- The report on one document, as a step of a builder that serves all documents. -/
def reportDocument (services : Services ServiceCounts) (config : LensConfig) (uri : String) :
    ExceptT CommandError (StateM (BuildState ServiceCounts)) DocumentReport :=
  fun state =>
    let lenses := Build.provideLenses services (Build.resolve services) config uri
    match lenses.run.run state with
    | (.ok lenses, state) => (.ok ⟨uri, lenses⟩, state)
    | (.error halt, state) => (.error (.analysisHalted uri halt), state)

/-- The report on some documents of a workspace, in the given order. -/
def ofWorkspace (workspace : Workspace) (config : LensConfig) (uris : List String) :
    Except CommandError Report :=
  let reports := uris.mapM (reportDocument workspace.services config)
  (reports.run.run (Build.start .zero)).1.map Report.mk

end Report

/-! ## Command lines -/

namespace Arguments

variable (files : String → FileContents)

/-- The snapshot at a path. -/
def loadSnapshot (path : String) : Except CommandError Snapshot := do
  let text ← (files path).text.mapError (.snapshotUnreadable path)
  (Snapshot.ofText text).mapError (.snapshotInvalid path)

/-- The configuration: the file's if there is one, with the mode of the command line. -/
def loadConfig (arguments : Arguments) : Except CommandError LensConfig := do
  let config ←
    match arguments.config with
    | none => .ok LensConfig.standard
    | some path => do
      let text ← (files path).text.mapError (.configUnreadable path)
      (LensConfig.ofText text).mapError (.configInvalid path)
  return { config with peekMode := arguments.mode.getD config.peekMode }

/-- The documents to report on: those asked for, which have to be in the workspace, or all. -/
def selectDocuments (arguments : Arguments) (workspace : Workspace) :
    Except CommandError (List String) :=
  match arguments.documents with
  | [] => .ok workspace.uris
  | documents =>
    match documents.find? fun uri => !workspace.uris.contains uri with
    | some uri => .error (.unknownDocument uri)
    | none => .ok documents

/-- Runs the command on the given files. -/
def run (arguments : Arguments) : Except CommandError Report := do
  let snapshot ← loadSnapshot files arguments.snapshot
  let config ← arguments.loadConfig files
  let workspace := Workspace.ofSnapshot snapshot
  let uris ← arguments.selectDocuments workspace
  Report.ofWorkspace workspace config uris

end Arguments
end Lineage
