/-!
# File trees

The part of a file system that decides whether a file can be made at a path: what is
there already, and where relative paths begin. Places are lists of names, starting at
the root.
-/

namespace Keystroke

/-- Why a file could not be made. -/
inductive FileError where
  | notFound
  | noDevice
  | permissionDenied
  | notADirectory
  | isDirectory
  | nameTooLong
deriving DecidableEq, Repr

def FileError.text : FileError → String
  | notFound => "Os \x7b code: 2, kind: NotFound, message: \"No such file or directory\" \x7d"
  | noDevice => "Os \x7b code: 6, kind: Uncategorized, message: \"No such device or address\" \x7d"
  | permissionDenied =>
    "Os \x7b code: 13, kind: PermissionDenied, message: \"Permission denied\" \x7d"
  | notADirectory => "Os \x7b code: 20, kind: NotADirectory, message: \"Not a directory\" \x7d"
  | isDirectory => "Os \x7b code: 21, kind: IsADirectory, message: \"Is a directory\" \x7d"
  | nameTooLong => "Os \x7b code: 36, kind: InvalidFilename, message: \"File name too long\" \x7d"

namespace FileTree

/-- What is written to a file that was made goes into it, or to the error output. -/
inductive Outlet where
  | file
  | errors
deriving DecidableEq, Repr

/-- What can be at a place. -/
inductive Entry where
  | directory
  /-- A directory where nothing can be made, and whether the length of names is limited there. -/
  | sealed (refusal : FileError) (limited : Bool)
  | file (outlet : Outlet)
  /-- A device that cannot be opened. -/
  | closed (error : FileError)
  /-- Another name for a place at which there is no link. -/
  | link (target : List String)
deriving DecidableEq, Repr

/-- The bytes that a name and a path may have at most. -/
def nameLimit : Nat := 255

def pathLimit : Nat := 4095

/-- The error of following a name that is not in a directory. -/
def Entry.missing (here : Entry) (name : String) : FileError :=
  match here with
  | .sealed _ false => .notFound
  | _ => if nameLimit < name.utf8ByteSize then .nameTooLong else .notFound

/-- The result of making a file with a name that is not in a directory. -/
def Entry.make (here : Entry) (name : String) : Except FileError Outlet :=
  match here with
  | .sealed refusal false => .error refusal
  | .sealed refusal true =>
    .error (if nameLimit < name.utf8ByteSize then .nameTooLong else refusal)
  | _ => if nameLimit < name.utf8ByteSize then .error .nameTooLong else .ok .file

/-- The result of opening what is there already. -/
def Entry.reopen : Entry → Except FileError Outlet
  | directory => .error .isDirectory
  | sealed _ _ => .error .isDirectory
  | file outlet => .ok outlet
  | closed error => .error error
  | link _ => .error .notFound

def Entry.isDirectory : Entry → Bool
  | directory => true
  | sealed _ _ => true
  | _ => false

end FileTree

structure FileTree where
  entries : List (List String × FileTree.Entry)
  workingDirectory : List String

namespace FileTree

/-- What is at a place: the root is a directory. -/
def entry? (tree : FileTree) (place : List String) : Option Entry :=
  if place = [] then some .directory else tree.entries.lookup place

/-- Where a name in a directory leads, and what is there. -/
def enter? (tree : FileTree) (place : List String) (name : String) :
    Option (List String × Entry) :=
  match tree.entry? (place ++ [name]) with
  | some (.link target) => (tree.entry? target).map fun entry => (target, entry)
  | some entry => some (place ++ [name], entry)
  | none => none

/-- Follows names from a place at which there is `here`. The root is its own parent. -/
def follow (tree : FileTree) (place : List String) (here : Entry) :
    List String → Except FileError (List String × Entry)
  | [] => .ok (place, here)
  | name :: rest =>
    if !here.isDirectory then .error .notADirectory
    else if name = "." then tree.follow place here rest
    else if name = ".." then
      tree.follow place.dropLast ((tree.entry? place.dropLast).getD .directory) rest
    else
      match tree.enter? place name with
      | some (place, here) => tree.follow place here rest
      | none => .error (here.missing name)

/-- Makes a file, or empties the one that is there, as the entry `name` of a place. -/
def makeIn (tree : FileTree) (place : List String) (here : Entry) (name : String)
    (slashBehind : Bool) : Except FileError Outlet :=
  if !here.isDirectory then .error .notADirectory
  else if name = "." ∨ name = ".." ∨ slashBehind then .error .isDirectory
  else
    match tree.enter? place name with
    | some (_, entry) => entry.reopen
    | none => here.make name

/-- Makes a file at a path, or empties the one that is there. -/
def make (tree : FileTree) (path : String) : Except FileError Outlet :=
  let names := ((path.toList.splitOn '/').filter (· ≠ [])).map String.ofList
  let start := if path.toList.head? = some '/' then [] else tree.workingDirectory
  if pathLimit < path.utf8ByteSize then .error .nameTooLong
  else
    match names.getLast? with
    | none => .error .isDirectory
    | some last => do
      let (place, here) ← tree.follow start .directory names.dropLast
      tree.makeIn place here last (path.toList.getLast? = some '/')

end FileTree

end Keystroke
