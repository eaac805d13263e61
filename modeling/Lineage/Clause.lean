import Lineage.LineMap
import Lineage.Text.Word

set_option autoImplicit false

/-! # Supertype clauses

Where a declaration names its supertypes, read off its text without parsing it. The scan goes along
the characters of the declaration's head and keeps the depth of angle brackets, so that type
parameters and type arguments are passed over; the head ends with the first `{` outside of them. An
arrow `=>` closes no bracket. A clause starts with the word `extends` or `implements` and at least
one blank; within it, each name after the keyword or after a comma is a reference.

The scan is a fold: `State.step` takes one character, with a view of what follows, and `run` stops at
the brace. Offsets are byte offsets into the text. -/

namespace Lineage

/-- The offsets at which a declaration's head refers to supertypes. -/
structure SupertypeClauses where
  /-- Behind the first `extends` and its blanks, whatever stands there. -/
  extended : Option Nat
  /-- The first characters of the names in `extends` clauses. -/
  extendedNames : List Nat
  /-- The first characters of the names in `implements` clauses. -/
  implementedNames : List Nat
deriving DecidableEq

namespace SupertypeClauses

/-- The clauses of a head that names no supertype. -/
def empty : SupertypeClauses := ⟨none, [], []⟩

/-- Whether neither clause is there. -/
def isEmpty (clauses : SupertypeClauses) : Bool :=
  clauses.extended.isNone && clauses.implementedNames.isEmpty

/-! ## Keywords -/

/-- The words that open a clause. -/
inductive Keyword where
  | extending
  | implementing
deriving DecidableEq

/-- The letters of a keyword. -/
def Keyword.letters : Keyword → Text
  | extending => ['e', 'x', 't', 'e', 'n', 'd', 's']
  | implementing => ['i', 'm', 'p', 'l', 'e', 'm', 'e', 'n', 't', 's']

/-- The blanks behind a keyword at the front of a text; `none` if the keyword is not there, or
    without a blank behind it. -/
def Keyword.blanksAfter? (keyword : Keyword) (t : Text) : Option Text :=
  if keyword.letters.isPrefixOf t then
    match Text.leadingBlanks (t.drop keyword.letters.length) with
    | [] => none
    | blanks => some blanks
  else
    none

/-- The clause that opens at the front of a text standing after `before`, as its keyword and all the
    characters up to the end of the blanks behind it. -/
def opening? (before : Option Char) (t : Text) : Option (Keyword × Text) :=
  if before.any Text.isIdentifierPart then
    none
  else
    match Keyword.extending.blanksAfter? t with
    | some blanks => some (.extending, Keyword.extending.letters ++ blanks)
    | none =>
      (Keyword.implementing.blanksAfter? t).map fun blanks =>
        (.implementing, Keyword.implementing.letters ++ blanks)

/-! ## The scan -/

/-- What the scan knows in front of a character. -/
structure State where
  /-- The offset of the character. -/
  offset : Nat
  /-- The character before it. -/
  before : Option Char
  /-- How many characters still belong to the opening of a clause. -/
  skip : Nat
  /-- How many angle brackets are open, negative if more were closed. -/
  depth : Int
  /-- The clause the scan is in. -/
  clause : Option Keyword
  /-- Whether the next name is a reference. -/
  expecting : Bool
  /-- The references found so far. -/
  found : SupertypeClauses

/-- In front of a whole text. -/
def State.initial : State where
  offset := 0
  before := none
  skip := 0
  depth := 0
  clause := none
  expecting := false
  found := .empty

/-- Whether the head ends in front of `c`. -/
def State.endsHead (state : State) (c : Char) : Bool :=
  state.skip == 0 && state.depth == 0 && c == '{'

/-- The references with one more name at `offset` in the clause of `keyword`. -/
def addName (clauses : SupertypeClauses) (offset : Nat) : Option Keyword → SupertypeClauses
  | none => clauses
  | some .extending => { clauses with extendedNames := clauses.extendedNames ++ [offset] }
  | some .implementing => { clauses with implementedNames := clauses.implementedNames ++ [offset] }

/-- Past a character outside of all brackets that is no bracket: a comma arms the clause, a keyword
    opens one, and a name in an armed clause is a reference. -/
def State.stepOutside (state : State) (c : Char) (rest : Text) : State :=
  if c == ',' && state.clause.isSome then
    { state with expecting := true }
  else
    match opening? state.before (c :: rest) with
    | some (keyword, spelled) =>
      let after := state.offset + Text.byteSize spelled
      { state with
        skip := spelled.length - 1
        clause := some keyword
        expecting := true
        found :=
          match keyword with
          | .extending => { state.found with extended := state.found.extended.or (some after) }
          | .implementing => state.found }
    | none =>
      if state.expecting && Text.isIdentifierStart c then
        { state with
          expecting := false
          found := addName state.found state.offset state.clause }
      else
        state

/-- Past the character `c`, with `rest` behind it. -/
def State.step (state : State) (c : Char) (rest : Text) : State :=
  let moved :=
    if state.skip ≠ 0 then
      { state with skip := state.skip - 1 }
    else if c == '<' then
      { state with depth := state.depth + 1 }
    else if c == '>' && state.before != some '=' then
      { state with depth := state.depth - 1 }
    else if state.depth ≠ 0 then
      state
    else
      state.stepOutside c rest
  { moved with offset := state.offset + c.utf8Size, before := some c }

/-- The references that a scan has found at the end of the head. -/
def run : State → Text → SupertypeClauses
  | state, [] => state.found
  | state, c :: rest =>
    if state.endsHead c then state.found else run (state.step c rest) rest

/-- The supertype clauses of a declaration's text. -/
def scan (t : Text) : SupertypeClauses :=
  run .initial t

/-! ## Positions of references -/

/-- The document position of an offset into a text that starts at `start` in its document; `none` if
    it leaves the 32-bit range. -/
def positionOf (map : LineMap) (start : Position) (offset : Nat) : Option Position :=
  Position.within start (map.positionAt offset)

end SupertypeClauses
end Lineage
