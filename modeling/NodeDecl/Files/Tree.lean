import NodeDecl.Files.Path

/-! # File trees

A tree maps locations to directories and files. A location is a list of names, innermost first,
so that its tail is the enclosing directory; the root is always a directory. Paths are walked
from the working directory, and a walk that fails says why, as the operating system does.
-/

namespace NodeDecl.Files

abbrev Location := List String

inductive Entry where
  | directory
  | file (content : ByteArray)
deriving Inhabited

/-- Files are equal if their bytes are. -/
instance : DecidableEq Entry
  | .directory, .directory => .isTrue rfl
  | .directory, .file _ => .isFalse nofun
  | .file _, .directory => .isFalse nofun
  | .file a, .file b =>
    if h : a.data = b.data then .isTrue (congrArg _ (ByteArray.ext h))
    else .isFalse fun e => h (congrArg ByteArray.data (Entry.file.inj e))

/-- Why an operation on files fails. -/
inductive Cause where
  | notFound
  | alreadyExists
  | notDirectory
  | isDirectory
  | nameTooLong
  | invalidArgument
  | nulInName
  | notUtf8
deriving DecidableEq, Inhabited

def Cause.message : Cause → String
  | notFound => "No such file or directory (os error 2)"
  | alreadyExists => "File exists (os error 17)"
  | notDirectory => "Not a directory (os error 20)"
  | isDirectory => "Is a directory (os error 21)"
  | nameTooLong => "File name too long (os error 36)"
  | invalidArgument => "Invalid argument (os error 22)"
  | nulInName => "file name contained an unexpected NUL byte"
  | notUtf8 => "stream did not contain valid UTF-8"

/-- A directory tree and the working directory in it. -/
structure Tree where
  here : Location
  entries : List (Location × Entry)
deriving Inhabited

/-- The longest name, and the length that a path has to stay below, in bytes. -/
def nameLimit : Nat := 255

def pathLimit : Nat := 4096

namespace Tree

/-- A location and those around it, as directories. -/
def directoriesTo : Location → List (Location × Entry)
  | [] => []
  | name :: rest => (name :: rest, .directory) :: directoriesTo rest

/-- A tree that holds nothing but the working directory. -/
def bare (here : Location) : Tree := ⟨here, directoriesTo here⟩

/-- The entry at a location. -/
def at? (t : Tree) : Location → Option Entry
  | [] => some .directory
  | l => t.entries.lookup l

/-- The tree with an entry at a location, in place of the one that was there. -/
def set (t : Tree) (l : Location) (e : Entry) : Tree :=
  { t with entries := (l, e) :: t.entries.filter fun p => p.1 ≠ l }

/-- The tree without a location and all below it. -/
def prune (t : Tree) (l : Location) : Tree :=
  { t with entries := t.entries.filter fun p => !l.isSuffixOf p.1 }

/-- The tree without all below a location. -/
def clear (t : Tree) (l : Location) : Tree :=
  { t with entries := t.entries.filter fun p => p.1 = l || !l.isSuffixOf p.1 }

/-- Goes one step to a directory. -/
def step (t : Tree) (l : Location) : Step → Except Cause Location
  | .here => .ok l
  | .up => .ok l.tail
  | .child name =>
    if nameLimit < name.utf8ByteSize then .error .nameTooLong
    else match t.at? (name :: l) with
      | none => .error .notFound
      | some (.file _) => .error .notDirectory
      | some .directory => .ok (name :: l)

/-- Walks through directories. -/
def walk (t : Tree) (l : Location) : List Step → Except Cause Location
  | [] => .ok l
  | s :: rest => match t.step l s with
    | .error cause => .error cause
    | .ok next => t.walk next rest

/-- Where a path ends: at a directory that is already reached, or at a name in a directory. -/
inductive Goal where
  | reached (l : Location)
  | named (directory : Location) (name : String) (slashed : Bool)
deriving DecidableEq

/-- Walks to the directory in which the last step of a path lies. -/
def goal (t : Tree) (path : String) : Except Cause Goal :=
  if path.toList.contains '\x00' then .error .nulInName
  else if path = "" then .error .notFound
  else if pathLimit ≤ path.utf8ByteSize then .error .nameTooLong
  else
    let r := Route.ofPath path
    match t.walk (if r.fromRoot then [] else t.here) r.steps.dropLast with
    | .error cause => .error cause
    | .ok l => match r.steps.getLast? with
      | none => .ok (.reached l)
      | some .here => .ok (.reached l)
      | some .up => .ok (.reached l.tail)
      | some (.child name) => .ok (.named l name r.slashed)

/-- The location and the entry that a path leads to. A separator after the path asks for a
directory. -/
def find (t : Tree) (path : String) : Except Cause (Location × Entry) :=
  match t.goal path with
  | .error cause => .error cause
  | .ok (.reached l) => .ok (l, .directory)
  | .ok (.named l name slashed) =>
    if nameLimit < name.utf8ByteSize then .error .nameTooLong
    else match t.at? (name :: l) with
      | none => .error .notFound
      | some .directory => .ok (name :: l, .directory)
      | some (.file content) =>
        if slashed then .error .notDirectory else .ok (name :: l, .file content)

def isDirectory (t : Tree) (path : String) : Bool :=
  match t.find path with
  | .ok (_, .directory) => true
  | _ => false

def isFile (t : Tree) (path : String) : Bool :=
  match t.find path with
  | .ok (_, .file _) => true
  | _ => false

def contains (t : Tree) (path : String) : Bool :=
  match t.find path with
  | .ok _ => true
  | .error _ => false

/-- The content of a file. -/
def read (t : Tree) (path : String) : Except Cause ByteArray :=
  match t.find path with
  | .error cause => .error cause
  | .ok (_, .directory) => .error .isDirectory
  | .ok (_, .file content) => .ok content

/-- The content of a file as text. -/
def readText (t : Tree) (path : String) : Except Cause String :=
  match t.read path with
  | .error cause => .error cause
  | .ok content => match String.fromUTF8? content with
    | none => .error .notUtf8
    | some text => .ok text

/-- Gives a file new content, making the file if there is none. -/
def write (t : Tree) (path : String) (content : ByteArray) : Except Cause Tree :=
  match t.goal path with
  | .error cause => .error cause
  | .ok (.reached _) => .error .isDirectory
  | .ok (.named l name slashed) =>
    if slashed then .error .isDirectory
    else if nameLimit < name.utf8ByteSize then .error .nameTooLong
    else match t.at? (name :: l) with
      | some .directory => .error .isDirectory
      | _ => .ok (t.set (name :: l) (.file content))

/-- Makes one directory. -/
def makeDirectory (t : Tree) (path : String) : Except Cause Tree :=
  match t.goal path with
  | .error cause => .error cause
  | .ok (.reached _) => .error .alreadyExists
  | .ok (.named l name _) =>
    if nameLimit < name.utf8ByteSize then .error .nameTooLong
    else match t.at? (name :: l) with
      | some _ => .error .alreadyExists
      | none => .ok (t.set (name :: l) .directory)

/-- Makes the first of some paths a directory, with the enclosing ones that follow it where they
are missing. Directories that were made stay, also when a later one cannot be made. -/
def makeAlong (t : Tree) : List String → Tree × Except Cause Unit
  | [] => (t, .error .notFound)
  | path :: rest =>
    if path = "" then (t, .ok ())
    else match t.makeDirectory path with
      | .ok made => (made, .ok ())
      | .error .notFound => match t.makeAlong rest with
        | (t, .error cause) => (t, .error cause)
        | (t, .ok ()) => match t.makeDirectory path with
          | .ok made => (made, .ok ())
          | .error cause => if t.isDirectory path then (t, .ok ()) else (t, .error cause)
      | .error cause => if t.isDirectory path then (t, .ok ()) else (t, .error cause)

/-- Makes a directory and those around it. -/
def makeDirectories (t : Tree) (path : String) : Tree × Except Cause Unit :=
  t.makeAlong (enclosingPaths path)

/-- Makes the directories around a file, then writes it. -/
def put (t : Tree) (path : String) (content : ByteArray) : Tree × Except Cause Unit :=
  match t.makeAlong (enclosingPaths path).tail with
  | (t, .error cause) => (t, .error cause)
  | (t, .ok ()) => match t.write path content with
    | .ok written => (written, .ok ())
    | .error cause => (t, .error cause)

/-- Removes a file, or a directory with all in it. A directory that is not reached by its name is
emptied; it stays, and if it can still be reached so, that is refused afterwards. -/
def remove (t : Tree) (path : String) : Tree × Except Cause Unit :=
  match t.find path, t.goal path with
  | .error cause, _ => (t, .error cause)
  | .ok (l, _), .ok (.reached _) =>
    let t := t.clear l
    (t, if t.contains path then .error .invalidArgument else .ok ())
  | .ok (l, _), _ => (t.prune l, .ok ())

/-- The path of a location below the working directory. -/
def pathBelow (t : Tree) (l : Location) : Option String :=
  if t.here.isSuffixOf l ∧ l ≠ t.here then
    some (String.intercalate "/" (l.take (l.length - t.here.length)).reverse)
  else none

/-- The paths below the working directory in order, with a separator after directories. -/
def listing (t : Tree) : List String :=
  (t.entries.filterMap fun p => (t.pathBelow p.1).map fun path =>
    match p.2 with
    | .directory => path ++ "/"
    | .file _ => path).mergeSort fun a b => decide (a ≤ b)

end Tree

end NodeDecl.Files
