import CellAlign.Command.World
import CellAlign.Text.Blank

/-!
# A directory of files

A run can be given its files as a list instead of a disk.  A path is then followed step by step from
the directory that holds just these files: one dot stays where it is, two dots lead to the directory
around, and any other name to what has it.  Only a directory can be gone on from, so a path that
ends in a slash, which is one more step to where it already is, cannot be that of a file.

Outside of the given directory little is known: that there are directories around it and some at the
root, and that two devices are files, one of them empty, the other the standard input.
-/

namespace CellAlign.Command

/-- The files of a directory by their paths. -/
abbrev Directory := List (String × ByteArray)

/-- Where a path leads. -/
inductive Place where
  | file (bytes : ByteArray)
  /-- The given directory, or one inside it by the names on the way. -/
  | inside (names : List String)
  /-- A directory by the names on the way from the root. -/
  | system (names : List String)
  /-- A directory around the given one. -/
  | around

namespace Directory

/-- The greatest size of a name, in bytes. -/
def nameLimit : Nat := 255

/-- The greatest size of a path, in bytes. -/
def pathLimit : Nat := 4095

/-- The steps of a path. -/
def steps (path : String) : List String :=
  (Text.words (· == '/') path.toList).map String.ofList ++
    (if path.toList.getLast? = some '/' then ["."] else [])

/-- The directories at the root. -/
def systemDirectories : List String :=
  ["bin", "dev", "etc", "home", "lib", "proc", "sys", "tmp", "usr", "var"]

/-- What is at the end of a way inside the directory. -/
def placeInside (directory : Directory) (names : List String) : Except ReadFault Place :=
  let ways := directory.map fun (path, bytes) => ((steps path).filter (· ≠ "."), bytes)
  match ways.lookup names with
  | some bytes => .ok (.file bytes)
  | none =>
    if ways.any fun (way, _) => names.isPrefixOf way then .ok (.inside names) else .error .missing

/-- What is at the end of a way from the root. -/
def systemPlace (input : ByteArray) (names : List String) : Except ReadFault Place :=
  match names with
  | [name] => if systemDirectories.contains name then .ok (.system names) else .error .missing
  | ["dev", "null"] => .ok (.file ByteArray.empty)
  | ["dev", "stdin"] => .ok (.file input)
  | _ => .error .missing

/-- The directory around a place. -/
def parent : Place → Place
  | .inside [] => .around
  | .inside names => .inside names.dropLast
  | .system names => .system names.dropLast
  | place => place

/-- What has a name in a directory. -/
def child (directory : Directory) (input : ByteArray) (name : String) :
    Place → Except ReadFault Place
  | .file _ => .error .notDirectory
  | .inside names => directory.placeInside (names ++ [name])
  | .system names => systemPlace input (names ++ [name])
  | .around => .error .missing

/-- Takes a step from a place, which has to be a directory. -/
def step (directory : Directory) (input : ByteArray) (place : Place) (name : String) :
    Except ReadFault Place :=
  match place with
  | .file _ => .error .notDirectory
  | _ =>
    if name = "." then .ok place
    else if name = ".." then .ok (parent place)
    else if nameLimit < name.utf8ByteSize then .error .nameTooLong
    else directory.child input name place

/-- Follows a path. -/
def follow (directory : Directory) (input : ByteArray) (path : String) : Except ReadFault Place :=
  if pathLimit < path.utf8ByteSize then .error .nameTooLong
  else
    let start := if path.toList.head? = some '/' then .system [] else .inside []
    (steps path).foldlM (directory.step input) start

/-- Reads the file of a path. -/
def read (directory : Directory) (input : ByteArray) (path : String) :
    Except ReadFault ByteArray :=
  match directory.follow input path with
  | .ok (.file bytes) => .ok bytes
  | .ok _ => .error .directory
  | .error fault => .error fault

end Directory

end CellAlign.Command
