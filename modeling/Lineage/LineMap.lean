import Lineage.Position
import Lineage.Text.Measure

set_option autoImplicit false

/-! # Line maps: byte offsets against positions

A line ends with a line feed, with a carriage return and a line feed, or with a carriage return
alone. A line map is a text cut into its lines, each with the byte offset at which it starts. From an
offset it finds the last line that starts at or before it and counts the UTF-16 units since; from a
position it walks along the line as far as the column allows, never into a character and never onto
the terminator. -/

namespace Lineage

/-! ## Lines -/

/-- A line of a text: the byte offset of its start, and its characters with the terminator. -/
structure Line where
  start : Nat
  text : Text
deriving DecidableEq

namespace Line

/-- Whether the character `c` in front of `rest` is the last character of a line terminator. -/
def endsWith (c : Char) (rest : Text) : Bool :=
  c == '\n' || (c == '\r' && rest.head? != some '\n')

/-- The lines of a text, each with its terminator; only the last one has none. -/
def cut : Text → List Text
  | [] => [[]]
  | c :: rest =>
    if endsWith c rest then
      [c] :: cut rest
    else
      match cut rest with
      | [] => [[c]]
      | line :: more => (c :: line) :: more

/-- Cutting a text into lines loses nothing. -/
theorem flatten_cut (t : Text) : (cut t).flatten = t := by
  induction t with
  | nil => rfl
  | cons c rest ih =>
    rw [cut]
    split
    · rw [List.flatten_cons, ih, List.singleton_append]
    · split
      · next h => rw [h] at ih; rw [← ih]; rfl
      · next line more h => rw [h] at ih; rw [← ih]; rfl

/-- A text has at least one line. -/
theorem cut_ne_nil (t : Text) : cut t ≠ [] := by
  match t with
  | [] => exact List.cons_ne_nil _ _
  | c :: rest =>
    rw [cut]
    split
    · exact List.cons_ne_nil _ _
    · split <;> exact List.cons_ne_nil _ _

/-- Consecutive lines, the first of which starts at `offset`. -/
def place : (offset : Nat) → List Text → List Line
  | _, [] => []
  | offset, text :: rest => ⟨offset, text⟩ :: place (offset + text.byteSize) rest

/-- The number of UTF-16 units in the first `bytes` bytes of a text, added to `units`. Past its end it is
    that of the whole text; inside a character it is zero. -/
def unitsWithin : (units bytes : Nat) → Text → Nat
  | units, 0, _ => units
  | units, _ + 1, [] => units
  | units, bytes + 1, c :: rest =>
    if c.utf8Size ≤ bytes + 1 then
      unitsWithin (units + Text.unitSize c) (bytes + 1 - c.utf8Size) rest
    else
      0

/-- The column of a byte offset into a line. -/
def columnAt (line : Line) (bytes : Nat) : Nat :=
  unitsWithin 0 bytes line.text

/-- Where a text can be cut, the units in front of the cut are counted. -/
theorem unitsWithin_of_splitAt? {bytes units : Nat} {t front back : Text}
    (h : t.splitAt? bytes = some (front, back)) :
    unitsWithin units bytes t = units + front.unitCount := by
  induction t generalizing bytes units front with
  | nil =>
    cases bytes with
    | zero =>
      obtain ⟨rfl, rfl⟩ := by simpa [Text.splitAt?] using h
      rfl
    | succ bytes => simp [Text.splitAt?] at h
  | cons c rest ih =>
    cases bytes with
    | zero =>
      obtain ⟨rfl, rfl⟩ := by simpa [Text.splitAt?] using h
      rfl
    | succ bytes =>
      rw [Text.splitAt?] at h
      split at h
      · next hle =>
        obtain ⟨⟨front', back'⟩, hcut, heq⟩ := Option.map_eq_some_iff.mp h
        simp only [Prod.mk.injEq] at heq
        obtain ⟨rfl, rfl⟩ := heq
        rw [unitsWithin, if_pos hle, ih hcut, Text.unitCount_cons, Nat.add_assoc]
      · cases h

/-- The number of bytes of the longest front of a text that stops before a line terminator and has at
    most `units` UTF-16 units. -/
def bytesWithin : (units : Nat) → Text → Nat
  | _, [] => 0
  | units, c :: rest =>
    if c == '\n' || c == '\r' || units < Text.unitSize c then
      0
    else
      c.utf8Size + bytesWithin (units - Text.unitSize c) rest

end Line

/-! ## Line maps -/

/-- A text with its lines. -/
structure LineMap where
  source : Text
  lines : List Line

namespace LineMap

/-- The line map of a text; its first line starts at offset zero. -/
def ofText (source : Text) : LineMap where
  source := source
  lines := Line.place 0 (Line.cut source)

/-- The number of lines, one more than the number of line terminators. -/
def lineCount (map : LineMap) : Nat :=
  map.lines.length

/-- The offset at which a line starts. -/
def lineStart? (map : LineMap) (line : Nat) : Option Nat :=
  (map.lines[line]?).map Line.start

/-! ## From offsets to positions -/

/-- The last line that starts at or before an offset. -/
def lineAt (map : LineMap) (offset : Nat) : Nat :=
  (map.lines.findIdx fun line => offset < line.start) - 1

/-- The number of UTF-16 units from the start of its line to an offset. Offsets past the end count
    as the end; an offset inside a character counts as the start of its line. -/
def columnAt (map : LineMap) (offset : Nat) : Nat :=
  match map.lines[map.lineAt offset]? with
  | some line => line.columnAt (offset - line.start)
  | none => 0

/-- The position of a byte offset. -/
def positionAt (map : LineMap) (offset : Nat) : Position :=
  ⟨(map.lineAt offset).toUInt32, (map.columnAt offset).toUInt32⟩

/-- The range between two byte offsets. -/
def rangeBetween (map : LineMap) (start stop : Nat) : Range :=
  ⟨map.positionAt start, map.positionAt stop⟩

/-! ## From positions to offsets -/

/-- The byte offset of a position; `none` if there is no such line. A column that lies past the end
    of the line or inside a surrogate pair counts as the nearest place before it. -/
def offsetAt? (map : LineMap) (position : Position) : Option Nat :=
  (map.lines[position.line.toNat]?).map fun line =>
    line.start + Line.bytesWithin position.character.toNat line.text

/-- The text of a range; `none` if one of its lines does not exist. A range that ends before it
    starts covers nothing. -/
def slice? (map : LineMap) (range : Range) : Option Text := do
  let start ← map.offsetAt? range.start
  let stop ← map.offsetAt? range.stop
  map.source.between? start (max start stop)

end LineMap
end Lineage
