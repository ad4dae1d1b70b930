/-! Paths of files: the names on the way, and which of them names an extension. -/

namespace HtmlTemplate

structure FilePath where
  /-- Whether the path begins at the root of all files. -/
  absolute : Bool
  parts : List String
  /-- Whether the path asks for a directory at its end. -/
  folder : Bool
  deriving DecidableEq, Repr

namespace FilePath

/-- Whether a part of a path leads from a directory to itself. -/
def staysPut (part : String) : Bool := part == "" || part == "."

/-- The parts of a path. Those that stay where they are count only at its end. -/
def ofText (text : String) : FilePath :=
  let parts := text.splitOn "/"
  { absolute := text.toList.head? == some '/',
    parts := parts.filter fun part => !staysPut part,
    folder := parts.getLast?.any staysPut }

/-- The directory that a path is in. -/
def parent (path : FilePath) : FilePath :=
  { path with parts := path.parts.dropLast, folder := true }

/-- A path as seen from a directory. -/
def join (directory path : FilePath) : FilePath :=
  if path.absolute then path else { path with absolute := directory.absolute, parts := directory.parts ++ path.parts }

/-- The name that a path ends with. -/
def fileName? (path : FilePath) : Option String :=
  match path.parts.getLast? with
  | some name => if name = ".." then none else some name
  | none => none

/-- Whether a name has a point that is not its first character. -/
def nameHasExtension (name : String) : Bool := name.toList.tail.contains '.'

def hasExtension (path : FilePath) : Bool := path.fileName?.any nameHasExtension

/-- A path without an extension, with one added to its last name. -/
def addExtension (path : FilePath) (extension : String) : FilePath :=
  match path.fileName? with
  | some name =>
    { path with parts := path.parts.dropLast ++ [name ++ "." ++ extension], folder := false }
  | none => path

end FilePath

/-! The files that a command can read. -/

/-- What is at a path. -/
inductive FileNode where
  | file (text : String)
  | directory
  | missing
  /-- The path leads through a file. -/
  | blocked
  deriving DecidableEq

namespace FileNode

def isThere : FileNode → Bool
  | file _ | directory => true
  | missing | blocked => false

/-- The text of a file, or why there is none. -/
def text? : FileNode → Except String String
  | file text => .ok text
  | directory => .error "Is a directory (os error 21)"
  | missing => .error "No such file or directory (os error 2)"
  | blocked => .error "Not a directory (os error 20)"

end FileNode

structure Files where
  find : FilePath → FileNode

namespace Files

/-- The node at a path in a table of files. All directories that the files are in exist. -/
def nodeAt (table : List (List String × String)) (place : List String) : FileNode :=
  match table.lookup place with
  | some text => .file text
  | none =>
    if place = [] ∨ table.any fun file => place.isPrefixOf file.1 then .directory else .missing

/-- What is outside of the first directory: the directories around it. Nothing is known of
what else is in them. -/
def outside (parts : List String) : FileNode :=
  if parts.all (· == "..") then .directory else .missing

/-- Follows the parts of a path from one directory to the next. -/
def walk (table : List (List String × String)) (place : List String) : List String → FileNode
  | [] => nodeAt table place
  | part :: rest =>
    match nodeAt table place with
    | .directory =>
      if part = ".." then if place = [] then outside rest else walk table place.dropLast rest
      else walk table (place ++ [part]) rest
    | .file _ => .blocked
    | node => node

/-- A file is not what a path that asks for a directory leads to. -/
def asked (path : FilePath) : FileNode → FileNode
  | .file text => if path.folder then .blocked else .file text
  | node => node

/-- The files of a table, by their paths from the directory that the command runs in. -/
def ofTable (files : List (String × String)) : Files :=
  let table := files.map fun (path, text) => ((FilePath.ofText path).parts, text)
  { find := fun path =>
      if path.absolute then outside path.parts else asked path (walk table [] path.parts) }

/-- The text of the file with a path, or why it cannot be read. A path without characters
leads nowhere. -/
def read (files : Files) (path : String) : Except String String :=
  if path = "" then FileNode.missing.text? else (files.find (.ofText path)).text?

end Files

end HtmlTemplate
