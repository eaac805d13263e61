import Lineage.Json.Printer
import Lineage.Json.Reader
import Lineage.Position

set_option autoImplicit false

/-! # Positions, ranges and locations as JSON -/

namespace Lineage

namespace Position

/-- A position as an object. -/
def toJson (position : Position) : Json :=
  .object [("line", .nat position.line.toNat), ("character", .nat position.character.toNat)]

/-- The fields of a position. -/
def record : Record [UInt32, UInt32] :=
  .field "line" Reader.word .required <|
  .field "character" Reader.word .required .done

/-- Reads a position. -/
def read : Nat → Reader Position :=
  Reader.opening fun _ => record.read fun (line, character, ()) => ⟨line, character⟩

end Position

namespace Range

/-- A range as an object. -/
def toJson (range : Range) : Json :=
  .object [("start", range.start.toJson), ("end", range.stop.toJson)]

/-- The fields of a range. -/
def record (room : Nat) : Record [Position, Position] :=
  .field "start" (Position.read room) .required <|
  .field "end" (Position.read room) .required .done

/-- Reads a range. -/
def read : Nat → Reader Range :=
  Reader.opening fun room => (record room).read fun (start, stop, ()) => ⟨start, stop⟩

end Range

namespace Location

/-- A location as an object. -/
def toJson (location : Location) : Json :=
  .object [("uri", .string location.uri), ("range", location.range.toJson)]

/-- The fields of a location. -/
def record (room : Nat) : Record [String, Range] :=
  .field "uri" Reader.string .required <|
  .field "range" (Range.read room) .required .done

/-- Reads a location. -/
def read : Nat → Reader Location :=
  Reader.opening fun room => (record room).read fun (uri, range, ()) => ⟨uri, range⟩

end Location
end Lineage
