import Lineage.Assoc
import Lineage.Text.Measure

set_option autoImplicit false

/-! # Folders of files

What is found at a path that starts in a folder of files. A path is walked name by name: an empty name
and `.` stay where they are, `..` leaves the folder, and behind a file nothing can follow, not even a
slash. Names and paths have a greatest size, and no path holds the character zero. Nothing is known
about the files outside of the folder. -/

namespace Lineage

/-- Why a file could not be read. -/
inductive FileFault where
  | missing
  /-- It is a folder. -/
  | folder
  /-- Its path goes on behind a file. -/
  | throughFile
  /-- Its path, or a name in it, is too long. -/
  | tooLong
  /-- No file can have such a path. -/
  | invalidPath
  /-- Its bytes are not UTF-8. -/
  | notText
  | unreadable
deriving DecidableEq

/-- The contents of a file, or why it could not be read. -/
abbrev FileContents := Except FileFault ByteArray

/-- The text of a file. -/
def FileContents.text (contents : FileContents) : Except FileFault String := do
  match String.fromUTF8? (← contents) with
  | some text => return text
  | none => throw .notText

/-- The files of a folder, by name. -/
abbrev Folder := Assoc String ByteArray

namespace Folder

/-- The names in a path, between its slashes. -/
def namesOf : Text → List Text
  | [] => [[]]
  | c :: rest =>
    if c == '/' then
      [] :: namesOf rest
    else
      match namesOf rest with
      | [] => [[c]]
      | name :: names => (c :: name) :: names

/-- A place on the way along a path. -/
inductive Place where
  /-- In the folder itself. -/
  | inside
  /-- In some folder around it. -/
  | outside
  | file (content : ByteArray)

/-- The greatest size of a name, in bytes. -/
def maxNameSize : Nat := 255

/-- The greatest size of a path, in bytes. -/
def maxPathSize : Nat := 4095

/-- From one place to the next. -/
def walk (folder : Folder) : Place → Text → Except FileFault Place
  | .file _, _ => .error .throughFile
  | place, [] => .ok place
  | place, ['.'] => .ok place
  | _, ['.', '.'] => .ok .outside
  | place, name =>
    if maxNameSize < name.byteSize then
      .error .tooLong
    else
      match place, folder.get? (String.ofList name) with
      | .inside, some content => .ok (.file content)
      | _, _ => .error .missing

/-- What is found at a path. -/
def contents (folder : Folder) (path : String) : FileContents := do
  let path := path.toList
  if path.contains '\x00' then
    throw .invalidPath
  else if maxPathSize < Text.byteSize path then
    throw .tooLong
  else
    let start : Place := if path.head? = some '/' then .outside else .inside
    match ← (namesOf path).foldlM folder.walk start with
    | .file content => return content
    | _ => throw .folder

end Folder
end Lineage
