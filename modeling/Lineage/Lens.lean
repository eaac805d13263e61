import Lineage.Analysis
import Lineage.Lens.Config
import Lineage.Wire.Position

set_option autoImplicit false

/-! # Code lenses

A lens stands on the range of a member that overrides or implements a member of an ancestor, names
the ancestor in its title, and peeks at the ancestor's member. -/

namespace Lineage

/-- The command of a lens. -/
structure LensCommand where
  title : String
  /-- The editor command to run. -/
  command : String
  arguments : Option (List Json)

/-- A command shown in front of a range. -/
structure CodeLens where
  range : Range
  command : Option LensCommand

namespace LensCommand

/-- A command as an object. -/
def toJson (command : LensCommand) : Json :=
  .object <|
    [("title", .string command.title), ("command", .string command.command)] ++
    (match command.arguments with
      | some arguments => [("arguments", .array arguments)]
      | none => [])

/-- The fields of a command. -/
def record (room : Nat) : Record [String, String, Option (List Json)] :=
  .field "title" Reader.string .required <|
  .field "command" Reader.string .required <|
  .field "arguments" (Reader.nullable (Reader.list Json.read room)) (.whenNamed none) .done

/-- Reads a command. -/
def read : Nat → Reader LensCommand :=
  Reader.opening fun room => (record room).read fun (title, command, arguments, ()) =>
    ⟨title, command, arguments⟩

end LensCommand

namespace CodeLens

/-- The title of a lens; empty if it has no command. -/
def title (lens : CodeLens) : String :=
  (lens.command.map LensCommand.title).getD ""

/-- A lens as an object. -/
def toJson (lens : CodeLens) : Json :=
  .object <|
    [("range", lens.range.toJson)] ++
    (match lens.command with
      | some command => [("command", command.toJson)]
      | none => [])

/-- The fields of a lens. -/
def record (room : Nat) : Record [Range, Option LensCommand] :=
  .field "range" (Range.read room) .required <|
  .field "command" (Reader.nullable (LensCommand.read room)) (.whenNamed none) .done

/-- Reads a lens. -/
def read : Nat → Reader CodeLens :=
  Reader.opening fun room => (record room).read fun (range, command, ()) => ⟨range, command⟩

/-- The lens for a pairing. Its command gets the document and the start of the member, the place of
    the ancestor's member and the peek mode. -/
def ofPairing (config : LensConfig) (pairing : MemberPairing) : CodeLens where
  range := pairing.member.range
  command := some
    { title := "@" ++ pairing.relation.title ++ " " ++ pairing.ancestor.name
      command := config.command
      arguments := some
        [.string pairing.member.uri,
          pairing.member.range.start.toJson,
          .array [pairing.ancestorMember.location.toJson],
          .string config.peekMode.title] }

end CodeLens

/-- The lenses of a document, in the order in which its declarations are listed; none if its language
    is not enabled. -/
def Build.provideLenses {σ : Type} (services : Services σ)
    (resolve : Declaration → Build σ TypeNode) (config : LensConfig) (uri : String) :
    Build σ (List CodeLens) := do
  if config.supports (services.languageId? uri) then
    let analysis ← analyzeDocument services resolve uri
    return analysis.pairings.map (CodeLens.ofPairing config)
  else
    return []

end Lineage
