import Lineage.Lens.Config

set_option autoImplicit false

/-! # Arguments of the command line

One positional argument, the snapshot, and options that may stand anywhere before `--`. An option's
value is attached to it (`--mode=goto`, `-dURI`, `-d=URI`) or is the next argument, unless that starts
with a dash.

Arguments are taken from left to right. A value that stands in an argument of its own is judged only
when the next argument or the end needs it: an unknown argument behind it is reported first, anything
else after it. -/

namespace Lineage

/-- How a report is written. -/
inductive OutputFormat where
  | text
  | json
deriving DecidableEq

/-- What the command line asks for. -/
structure Arguments where
  /-- The path of the snapshot. -/
  snapshot : String
  /-- The documents to report on, all if there are none. -/
  documents : List String
  /-- The path of the lens configuration. -/
  config : Option String
  /-- The peek mode, in place of the configured one. -/
  mode : Option PeekMode
  format : OutputFormat
deriving DecidableEq

/-- Why the arguments were not accepted. -/
inductive ArgumentError where
  | missingRequired
  | unknown
  | invalidValue
  | conflict
  | tooManyValues
  /-- Not a mistake: help is asked for. -/
  | help
  /-- Not a mistake: the version is asked for. -/
  | version
deriving DecidableEq

namespace Arguments

/-! ## Options -/

/-- The settings that take a value. -/
inductive Setting where
  | snapshot
  | document
  | config
  | mode
  | format
deriving DecidableEq

/-- What an option does. -/
inductive Switch where
  | setting (setting : Setting)
  | help
  | version
deriving DecidableEq

/-- The options with long names. -/
def longOptions : List (String × Switch) :=
  [("document", .setting .document), ("config", .setting .config), ("mode", .setting .mode),
    ("format", .setting .format), ("help", .help), ("version", .version)]

/-- The options with short names. -/
def shortOptions : List (Char × Switch) :=
  [('d', .setting .document), ('c', .setting .config), ('h', .help), ('V', .version)]

/-- The words for the modes, with a second spelling of one. -/
def modeWords : List (String × PeekMode) :=
  PeekMode.words ++ [("goto-and-peek", .gotoAndPeek)]

/-- The words for the formats. -/
def formatWords : List (String × OutputFormat) :=
  [("text", .text), ("json", .json)]

/-! ## Arguments read so far -/

/-- The settings made so far, the one whose value is not judged yet, and how to take the next
    argument. -/
structure State where
  snapshot : Option String
  documents : List String
  config : Option String
  mode : Option PeekMode
  format : Option OutputFormat
  /-- A setting with its value, if that has come. -/
  pending : Option (Setting × Option String)
  /-- Whether the next argument is the value of the pending setting. -/
  awaiting : Bool
  /-- Whether the positional argument has come. -/
  positional : Bool
  /-- Whether `--` has come. -/
  trailing : Bool

/-- Nothing read. -/
def State.initial : State :=
  ⟨none, [], none, none, none, none, false, false, false⟩

/-- A step that may find a mistake. -/
abbrev Result := Except ArgumentError State

/-- A path; it must not be empty. -/
def path (value : String) : Except ArgumentError String :=
  if value.isEmpty then .error .invalidValue else .ok value

/-- The meaning of a word. -/
def wordIn {α : Type} (words : List (String × α)) (value : String) : Except ArgumentError α :=
  match words.lookup value with
  | some meaning => .ok meaning
  | none => .error .invalidValue

namespace State

/-- Whether a setting can not be made once more. -/
def isTaken (state : State) : Setting → Bool
  | .snapshot => state.snapshot.isSome
  | .document => false
  | .config => state.config.isSome
  | .mode => state.mode.isSome
  | .format => state.format.isSome

/-- Makes a setting. -/
def apply (state : State) (setting : Setting) (value : Option String) : Result :=
  match value with
  | none => .error .invalidValue
  | some value =>
    if state.isTaken setting then
      .error .conflict
    else
      match setting with
      | .snapshot => do return { state with snapshot := some (← path value) }
      | .document => .ok { state with documents := state.documents ++ [value] }
      | .config => do return { state with config := some (← path value) }
      | .mode => do return { state with mode := some (← wordIn modeWords value) }
      | .format => do return { state with format := some (← wordIn formatWords value) }

/-- Judges the pending setting, if any. -/
def settle (state : State) : Result :=
  match state.pending with
  | none => .ok state
  | some (setting, value) => { state with pending := none, awaiting := false }.apply setting value

/-- Takes an option with the value attached to it, if any. -/
def takeSwitch (state : State) (switch : Switch) (attached : Option String) : Result :=
  match switch, attached with
  | .setting setting, some value => do (← state.settle).apply setting (some value)
  | .setting setting, none => do
    return { ← state.settle with pending := some (setting, none), awaiting := true }
  | .help, none => do
    let _ ← state.settle
    throw .help
  | .version, none => do
    let _ ← state.settle
    throw .version
  | _, some _ => .error .tooManyValues

/-- Takes an argument that is no option. -/
def takeValue (state : State) (argument : String) : Result :=
  if state.awaiting && !state.trailing then
    .ok
      { state with
        pending := state.pending.map fun (setting, _) => (setting, some argument)
        awaiting := false }
  else if state.positional then
    .error .unknown
  else do
    return { ← state.settle with pending := some (.snapshot, some argument), positional := true }

/-- Takes an argument behind two dashes. -/
def takeLong (state : State) (body : Text) : Result :=
  let name := body.takeWhile (· != '=')
  let attached :=
    match body.dropWhile (· != '=') with
    | [] => none
    | _ :: value => some (String.ofList value)
  match longOptions.lookup (String.ofList name) with
  | some switch => state.takeSwitch switch attached
  | none => .error .unknown

/-- Takes an argument behind one dash, whose first character is the option. -/
def takeShort (state : State) (name : Char) (body : Text) : Result :=
  let attached :=
    match body with
    | [] => none
    | '=' :: value => some (String.ofList value)
    | value => some (String.ofList value)
  match shortOptions.lookup name with
  | some (.setting setting) => state.takeSwitch (.setting setting) attached
  | some switch => state.takeSwitch switch none
  | none => .error .unknown

/-- Takes one argument. -/
def take (state : State) (argument : String) : Result :=
  if state.trailing then
    state.takeValue argument
  else
    match argument.toList with
    | ['-', '-'] => .ok { state with trailing := true }
    | '-' :: '-' :: body => state.takeLong body
    | '-' :: name :: body => state.takeShort name body
    | _ => state.takeValue argument

end State

/-! ## Whole command lines -/

/-- Reads the arguments behind the name of the program. -/
def ofList (arguments : List String) : Except ArgumentError Arguments := do
  let state ← arguments.foldlM State.take .initial
  let state ← state.settle
  match state.snapshot with
  | none => throw .missingRequired
  | some snapshot =>
    return ⟨snapshot, state.documents, state.config, state.mode, state.format.getD .text⟩

end Arguments
end Lineage
