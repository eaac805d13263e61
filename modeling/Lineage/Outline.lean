import Lineage.LineMap
import Lineage.Outline.Head
import Lineage.Symbol

set_option autoImplicit false

/-! # Outlines of source text

The outline of a small TypeScript source: its top-level classes and interfaces with their members.
The outliner reads the text line by line and keeps the depth of braces. A declaration starts on a line
at depth 0 and ends with the brace that brings the depth back to 0; a member starts on a line at depth
1 and ends with its body, with a semicolon, or with its line. -/

namespace Lineage

/-- A declaration whose end is not reached. -/
structure OpenDeclaration where
  head : Head
  /-- The offset of its first character. -/
  start : Nat
  members : List DocumentSymbol

/-- A member whose end is not reached. -/
structure OpenMember where
  head : Head
  /-- The offset of its first character. -/
  start : Nat
  /-- Whether a brace inside the member was opened. -/
  hasBody : Bool

/-- The symbol of a head, from `start` to `stop`. -/
def Head.symbol (map : LineMap) (head : Head) (start stop : Nat)
    (children : List DocumentSymbol) : DocumentSymbol where
  name := String.ofList head.name
  detail := none
  kind := head.kind
  range := map.rangeBetween start stop
  selection := map.rangeBetween head.offset (head.offset + head.name.byteSize)
  children := children

/-- The state of the outliner. -/
structure Outliner where
  symbols : List DocumentSymbol
  declaration : Option OpenDeclaration
  member : Option OpenMember
  /-- How many braces are open, negative if more were closed. -/
  depth : Int

namespace Outliner

/-- In front of a whole text. -/
def initial : Outliner := ⟨[], none, none, 0⟩

/-- Ends the open member, if any, at an offset. -/
def finishMember (map : LineMap) (state : Outliner) (stop : Nat) : Outliner :=
  match state.member with
  | none => state
  | some member =>
    let symbol := member.head.symbol map member.start stop []
    { state with
      member := none
      declaration := state.declaration.map fun declaration =>
        { declaration with members := declaration.members ++ [symbol] } }

/-- Ends the open declaration, if any, at an offset; a member still open is lost. -/
def finishDeclaration (map : LineMap) (state : Outliner) (stop : Nat) : Outliner :=
  match state.declaration with
  | none => { state with member := none }
  | some declaration =>
    let symbol := declaration.head.symbol map declaration.start stop declaration.members
    { state with
      member := none
      declaration := none
      symbols := state.symbols ++ [symbol] }

/-- Opens what a line announces; its first character that is no blank is at `offset`. -/
def beginLine (state : Outliner) (offset : Nat) (line : Text) : Outliner :=
  if state.depth = 0 && state.declaration.isNone then
    match Head.declaration? offset line with
    | some head => { state with declaration := some ⟨head, offset, []⟩ }
    | none => state
  else if state.depth = 1 && state.declaration.isSome && state.member.isNone then
    match Head.member? offset line with
    | some head => { state with member := some ⟨head, offset, false⟩ }
    | none => state
  else
    state

/-- Behind an opening brace. -/
def openBrace (state : Outliner) : Outliner :=
  let depth := state.depth + 1
  { state with
    depth := depth
    member :=
      if depth = 2 then state.member.map fun member => { member with hasBody := true }
      else state.member }

/-- Behind a closing brace that ends at `stop`. -/
def closeBrace (map : LineMap) (state : Outliner) (stop : Nat) : Outliner :=
  let state := { state with depth := state.depth - 1 }
  if state.depth = 1 && state.member.any OpenMember.hasBody then
    state.finishMember map stop
  else if state.depth = 0 then
    state.finishDeclaration map stop
  else
    state

/-- Ends a member without a body, if one is open at depth 1. -/
def finishBodiless (map : LineMap) (state : Outliner) (stop : Nat) : Outliner :=
  if state.depth = 1 && state.member.any fun member => !member.hasBody then
    state.finishMember map stop
  else
    state

/-- Behind the character `c` at an offset. -/
def step (map : LineMap) (state : Outliner) (offset : Nat) (c : Char) : Outliner :=
  if c == '{' then state.openBrace
  else if c == '}' then state.closeBrace map (offset + 1)
  else if c == ';' then state.finishBodiless map (offset + 1)
  else state

/-- Behind the characters of a line that starts at `offset`. -/
def steps (map : LineMap) : Outliner → (offset : Nat) → Text → Outliner
  | state, _, [] => state
  | state, offset, c :: rest => steps map (state.step map offset c) (offset + c.utf8Size) rest

/-- Behind a whole line that starts at `offset`. -/
def readLine (map : LineMap) (state : Outliner) (offset : Nat) (line : Text) : Outliner :=
  let content := line.trimStart
  let opened := state.beginLine (offset + (line.byteSize - content.byteSize)) content
  (opened.steps map offset line).finishBodiless map (offset + line.trimEnd.byteSize)

/-- Behind some lines, the first of which starts at `offset`. -/
def readLines (map : LineMap) : Outliner → (offset : Nat) → List Text → Outliner
  | state, _, [] => state
  | state, offset, line :: rest =>
    readLines map (state.readLine map offset line) (offset + line.byteSize) rest

end Outliner

/-- The top-level classes and interfaces of a source text, with their members as children. -/
def outline (source : Text) : List DocumentSymbol :=
  (Outliner.initial.readLines (LineMap.ofText source) 0 source.lines).symbols

end Lineage
