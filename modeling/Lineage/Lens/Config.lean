import Lineage.Json.Reader

set_option autoImplicit false

/-! # Lens configuration

Which documents get lenses, and what a lens does when it is clicked. Every field of the configuration
may be absent from its JSON form and has a default. -/

namespace Lineage

/-- How an editor reveals the ancestor's member. -/
inductive PeekMode where
  | peek
  | gotoAndPeek
  | goto
deriving DecidableEq

namespace PeekMode

/-- The word for a mode. -/
def title : PeekMode → String
  | peek => "peek"
  | gotoAndPeek => "gotoAndPeek"
  | goto => "goto"

/-- The words for the modes. -/
def words : List (String × PeekMode) :=
  [(peek.title, peek), (gotoAndPeek.title, gotoAndPeek), (goto.title, goto)]

/-- Reads a mode. -/
def read : Nat → Reader PeekMode := Reader.choice words

end PeekMode

/-- The configuration of lenses. -/
structure LensConfig where
  /-- The languages whose documents get lenses. -/
  languages : List String
  peekMode : PeekMode
  /-- The editor command that a lens runs. -/
  command : String
deriving DecidableEq

namespace LensConfig

/-- The configuration without any settings. -/
def standard : LensConfig where
  languages := ["typescript", "javascript"]
  peekMode := .peek
  command := "editor.action.peekLocations"

/-- Whether documents of a language get lenses; those of unknown language do. -/
def supports (config : LensConfig) (languageId : Option String) : Bool :=
  languageId.all fun language => config.languages.contains language

/-- A configuration as an object. -/
def toJson (config : LensConfig) : Json :=
  .object [("languages", .array (config.languages.map .string)),
    ("peekMode", .string config.peekMode.title), ("command", .string config.command)]

/-- The fields of a configuration. -/
def record (room : Nat) : Record [List String, PeekMode, String] :=
  .field "languages" (Reader.list (fun _ => Reader.string) room) (.always standard.languages) <|
  .field "peekMode" (PeekMode.read room) (.always standard.peekMode) <|
  .field "command" Reader.string (.always standard.command) .done

/-- Reads a configuration. -/
def read : Nat → Reader LensConfig :=
  Reader.opening fun room => (record room).read fun (languages, peekMode, command, ()) =>
    ⟨languages, peekMode, command⟩

/-- Reads a configuration from JSON text. -/
def ofText (text : String) : Except ReadError LensConfig := Reader.ofText read text

end LensConfig
end Lineage
