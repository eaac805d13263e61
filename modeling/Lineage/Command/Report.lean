import Lineage.Command.Arguments
import Lineage.Json.Printer
import Lineage.Lens

set_option autoImplicit false

/-! # Reports

The lenses of some documents, written as one line per lens or as JSON. -/

namespace Lineage

/-- The lenses of one document. -/
structure DocumentReport where
  uri : String
  lenses : List CodeLens

/-- The lenses of some documents. -/
structure Report where
  documents : List DocumentReport

namespace Report

/-- The number of lenses. -/
def lensCount (report : Report) : Nat :=
  report.documents.foldr (fun document count => document.lenses.length + count) 0

/-- A report as JSON. -/
def toJson (report : Report) : Json :=
  .object [("documents", .array (report.documents.map fun document =>
    .object [("uri", .string document.uri), ("lenses", .array (document.lenses.map CodeLens.toJson))]))]

/-- The line for a lens: place, with line and column counted from one, and title. `none` if a number
    leaves the 32-bit range. -/
def lensLine (uri : String) (lens : CodeLens) : Option String := do
  let line ← addChecked lens.range.start.line 1
  let column ← addChecked lens.range.start.character 1
  return uri ++ ":" ++ toString line.toNat ++ ":" ++ toString column.toNat ++ " " ++ lens.title ++ "\n"

/-- A report in a format; `none` if a number leaves the 32-bit range. -/
def render (report : Report) : OutputFormat → Option String
  | .json => some (report.toJson.toPrettyText ++ "\n")
  | .text => do
    let lines ← report.documents.mapM fun document => document.lenses.mapM (lensLine document.uri)
    return String.join lines.flatten

end Report
end Lineage
