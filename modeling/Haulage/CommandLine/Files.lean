/-
Module: Haulage.CommandLine.Files
Purpose: What a program does with files, and trees of files kept as values.
Main exports: Reading, WriteError, Files, FileTree, FileTree.access
-/
import Haulage.CommandLine.Path

namespace Haulage

namespace CommandLine

/-- What comes of reading a file. -/
inductive Reading where
  /-- There is no such file. -/
  | missing
  /-- There is one that holds no text, such as a folder. -/
  | unreadable
  | text (content : String)
deriving Repr, Inhabited

/-- Why a file was not written. -/
inductive WriteError where
  | noFolder
  | fileExists
  | notAFolder
  | isAFolder
  | nameTooLong
  | other (message : String)
deriving DecidableEq, Repr, Inhabited

namespace WriteError

/-- The text of a write error. -/
def message : WriteError → String
  | noFolder => "No such file or directory (os error 2)"
  | fileExists => "File exists (os error 17)"
  | notAFolder => "Not a directory (os error 20)"
  | isAFolder => "Is a directory (os error 21)"
  | nameTooLong => "File name too long (os error 36)"
  | other message => message

end WriteError

/-- What a program does with files.  Writing replaces what was there, and answers with an error
where it is not possible. -/
structure Files (m : Type → Type) where
  read : String → m Reading
  write : String → String → m (Option WriteError)
  /-- Makes a folder and those around it, where they are missing. -/
  makeFolders : Path → m (Option WriteError)

/-! ### Trees of files -/

/-- A tree of files with their texts, and of folders.  The folder in which the program runs is
there, and so are those around it. -/
structure FileTree where
  files : List (Place × String)
  folders : List Place
deriving Repr, Inhabited

namespace FileTree

/-- The bytes of the longest name. -/
def longestName : Nat := 255

/-- The bytes of the longest path. -/
def longestPath : Nat := 4095

/-- The path that a text describes, unless it is too long. -/
def pathOf (s : String) : Except WriteError Path :=
  if longestPath < s.utf8ByteSize then .error .nameTooLong else .ok (.ofText s)

/-- Whether there is a folder. -/
def isFolder (t : FileTree) (place : Place) : Bool :=
  place.way.isEmpty || t.folders.contains place

/-- The text of a file. -/
def content? (t : FileTree) (place : Place) : Option String := t.files.lookup place

/-- The place with a name in a folder, whether there is something or not. -/
def entry (folder : Place) (name : String) : Except WriteError Place :=
  if longestName < name.utf8ByteSize then .error .nameTooLong else .ok (folder.inner name)

/-- The place that one part of a path leads to. -/
def step (t : FileTree) (folder : Place) (part : String) : Except WriteError Place := do
  if !t.isFolder folder then .error .notAFolder
  else if part = "." then .ok folder
  else if part = ".." then .ok folder.outer
  else
    let place ← entry folder part
    if t.isFolder place || (t.content? place).isSome then .ok place else .error .noFolder

/-- The place that a path leads to. -/
def locate (t : FileTree) (path : Path) : Except WriteError Place := do
  let place ← path.parts.foldlM t.step (.start path)
  if path.endsWithSlash && !t.isFolder place then .error .notAFolder else .ok place

/-- The folder that all parts of a path but the last lead to. -/
def around (t : FileTree) (path : Path) : Except WriteError Place := do
  let place ← path.parts.dropLast.foldlM t.step (.start path)
  if t.isFolder place then .ok place else .error .notAFolder

/-- What comes of reading a file. -/
def read (t : FileTree) (path : String) : Reading :=
  match (pathOf path).bind t.locate with
  | .error _ => .missing
  | .ok place =>
    match t.content? place with
    | some content => .text content
    | none => .unreadable

/-- Puts a file into the tree, whatever was there. -/
def insert (t : FileTree) (place : Place) (content : String) : FileTree :=
  { t with files := (place, content) :: t.files.filter (·.1 ≠ place) }

/-- Writes a file into a folder that is there. -/
def write (t : FileTree) (path content : String) : Except WriteError FileTree := do
  let path ← pathOf path
  let folder ← t.around path
  match path.name? with
  | none => .error .isAFolder
  | some name =>
    if path.endsWithSlash then .error .isAFolder
    else
      let place ← entry folder name
      if t.isFolder place then .error .isAFolder else .ok (t.insert place content)

/-- Makes one folder. -/
def makeFolder (t : FileTree) (path : Path) : Except WriteError FileTree := do
  let folder ← t.around path
  match path.name? with
  | none => .error .fileExists
  | some name =>
    let place ← entry folder name
    if t.isFolder place || (t.content? place).isSome then .error .fileExists
    else .ok { t with folders := place :: t.folders }

/-- Makes one folder, unless it is there. -/
def ensureFolder (t : FileTree) (path : Path) : Except WriteError FileTree :=
  match t.makeFolder path with
  | .error e => if (t.locate path).toOption.any t.isFolder then .ok t else .error e
  | made => made

/-- Makes the folder that the first `n` parts of a path lead to.  Where the folder around it is
missing, that is made before. -/
def makeFoldersUpTo (t : FileTree) (path : Path) : Nat → Except WriteError FileTree
  | 0 => .ok t
  | n + 1 =>
    match t.ensureFolder (path.upTo (n + 1)) with
    | .error .noFolder => do (← t.makeFoldersUpTo path n).ensureFolder (path.upTo (n + 1))
    | made => made

/-- Makes a folder and those around it, where they are missing. -/
def makeFolders (t : FileTree) (path : Path) : Except WriteError FileTree := do
  let _ ← pathOf path.text
  t.makeFoldersUpTo path path.parts.length

/-- The tree of the given files, each with its path and its text, in their folders. -/
def ofFiles (files : List (String × String)) : FileTree :=
  files.foldl (fun t (path, content) =>
    let attempt := do (← t.makeFolders (Path.ofText path).folder).write path content
    attempt.toOption.getD t) ⟨[], []⟩

/-- Changes the tree, unless that is not possible. -/
def changed (f : FileTree → Except WriteError FileTree) : StateM FileTree (Option WriteError) :=
  fun t =>
    match f t with
    | .ok t => (none, t)
    | .error e => (some e, t)

/-- The files of a tree. -/
def access : Files (StateM FileTree) where
  read path := do return (← get).read path
  write path content := changed (·.write path content)
  makeFolders path := changed (·.makeFolders path)

end FileTree

end CommandLine

end Haulage
