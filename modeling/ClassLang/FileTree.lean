import ClassLang.Failure

/-!
# File trees

The files that a run sees, as a value.  A path is walked name by name, from the root or
from the working directory, and every name but the last one must lead to a directory:
`.` is the directory itself and `..` the one it lies in.  What the last name may be
depends on whether a file is read or written.
-/

namespace ClassLang

/-- A place in a file tree: the names that lead to it from the root. -/
abbrev Location := List String

/-- The files of a system, and the directory that a run starts in. -/
structure FileTree where
  /-- Where paths start that do not start at the root.  It is a directory, and so is
  every place on the way to it. -/
  workingDirectory : Location := []
  /-- Further directories. -/
  directories : List Location := []
  /-- Files that stay empty, whatever is written to them. -/
  sinks : List Location := []
  files : List (Location × ByteArray) := []
  deriving Inhabited

/-- What a path leads to. -/
inductive Destination
  /-- A directory that exists. -/
  | directory
  /-- A name in a directory that exists, where something is or may be put.  A slash
  behind the name asks for a directory. -/
  | entry (location : Location) (slash : Bool)
  deriving DecidableEq, Repr, Inhabited

namespace FilePath

/-- The most bytes that a path may have. -/
def maxBytes : Nat := 4095

/-- The most bytes that one name may have. -/
def maxNameBytes : Nat := 255

/-- The parts of a path between slashes. -/
def parts : List Char → List (List Char)
  | [] => [[]]
  | c :: rest =>
    if c = '/' then [] :: parts rest
    else match parts rest with
      | part :: others => (c :: part) :: others
      | [] => [[c]]

/-- The names in a path; several slashes count as one. -/
def names (path : String) : List String :=
  ((parts path.toList).filter fun part => !part.isEmpty).map String.ofList

/-- Whether a path starts at the root. -/
def isAbsolute (path : String) : Bool := path.toList.head? == some '/'

/-- Whether a path has a slash behind its last name. -/
def endsInSlash (path : String) : Bool := path.toList.getLast? == some '/'

/-- Whether a name stands for a directory by itself. -/
def isDots (name : String) : Bool := name == "." || name == ".."

/-- Whether a name is too long for any directory. -/
def isTooLong (name : String) : Bool := maxNameBytes < name.utf8ByteSize

/-- What is wrong with a path in any file tree. -/
def fault? (path : String) : Option FileError :=
  if path.toList.contains '\x00' then some .zeroByte
  else if path.isEmpty then some .notFound
  else if maxBytes < path.utf8ByteSize then some .nameTooLong
  else none

end FilePath

namespace FileTree

/-- Whether there is a directory at a place. -/
def isDirectory (tree : FileTree) (location : Location) : Bool :=
  location.isPrefixOf tree.workingDirectory || tree.directories.contains location

/-- The bytes of the file at a place. -/
def bytes? (tree : FileTree) (location : Location) : Option ByteArray :=
  if tree.sinks.contains location then some .empty else tree.files.lookup location

/-- The directory that a name leads to from a directory. -/
def enter (tree : FileTree) (here : Location) (name : String) : Except FileError Location :=
  if name = "." then .ok here
  else if name = ".." then .ok here.dropLast
  else if FilePath.isTooLong name then .error .nameTooLong
  else if tree.isDirectory (here ++ [name]) then .ok (here ++ [name])
  else if (tree.bytes? (here ++ [name])).isSome then .error .notDirectory
  else .error .notFound

/-- The directory that names lead to from a directory, one after the other. -/
def enterAll (tree : FileTree) (here : Location) : List String → Except FileError Location
  | [] => .ok here
  | name :: rest => do
    let next ← tree.enter here name
    tree.enterAll next rest

/-- The directory that a path starts from. -/
def start (tree : FileTree) (path : String) : Location :=
  if FilePath.isAbsolute path then [] else tree.workingDirectory

/-- What a path leads to. -/
def locate (tree : FileTree) (path : String) : Except FileError Destination :=
  match FilePath.fault? path with
  | some fault => .error fault
  | none => do
    let names := FilePath.names path
    let here ← tree.enterAll (tree.start path) names.dropLast
    match names.getLast? with
    | none => return .directory
    | some name =>
      if FilePath.isDots name then return .directory
      else return .entry (here ++ [name]) (FilePath.endsInSlash path)

/-- The text of the file at a place, or why there is none. -/
def readAt (tree : FileTree) (location : Location) (slash : Bool) : Except FileError String :=
  if location.getLast?.any FilePath.isTooLong then .error .nameTooLong
  else if tree.isDirectory location then .error .isDirectory
  else match tree.bytes? location with
    | none => .error .notFound
    | some bytes =>
      if slash then .error .notDirectory
      else match String.fromUTF8? bytes with
        | some text => .ok text
        | none => .error .notText

/-- The text of a file. -/
def read (tree : FileTree) (path : String) : Except FileError String := do
  match ← tree.locate path with
  | .directory => .error .isDirectory
  | .entry location slash => tree.readAt location slash

/-- The tree with a file that has a text. -/
def put (tree : FileTree) (location : Location) (text : String) : FileTree :=
  if tree.sinks.contains location then tree
  else
    { tree with
      files := (location, text.toUTF8) :: tree.files.filter fun file => file.1 != location }

/-- Writes a text at a place; a slash behind the name asks for a directory, and no text
can be written to one. -/
def writeAt (tree : FileTree) (location : Location) (slash : Bool) (text : String) :
    Except FileError FileTree :=
  if slash then .error .isDirectory
  else if location.getLast?.any FilePath.isTooLong then .error .nameTooLong
  else if tree.isDirectory location then .error .isDirectory
  else .ok (tree.put location text)

/-- Writes a text to a file, which is made if it does not exist. -/
def write (tree : FileTree) (path text : String) : Except FileError FileTree := do
  match ← tree.locate path with
  | .directory => .error .isDirectory
  | .entry location slash => tree.writeAt location slash text

/-- The top-level directories of a system. -/
def topLevel : List Location :=
  ["bin", "dev", "etc", "home", "lib", "proc", "root", "tmp", "usr", "var"].map ([·])

/-- A system where a run starts in a directory with the given files.  The directory has
no name of its own, so that no path from the root leads there. -/
def startingWith (files : List (String × ByteArray)) : FileTree where
  workingDirectory := ["tmp", ""]
  directories := topLevel
  sinks := [["dev", "null"]]
  files := files.map fun (name, bytes) => (["tmp", "", name], bytes)

/-- What was put at a place is there, unless the place is a sink. -/
theorem bytes?_put (tree : FileTree) (location : Location) (text : String)
    (h : location ∉ tree.sinks) :
    (tree.put location text).bytes? location = some text.toUTF8 := by
  simp [put, bytes?, h]

end FileTree

end ClassLang
