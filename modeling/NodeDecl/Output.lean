import NodeDecl.Diff.Patch
import NodeDecl.Event
import NodeDecl.Failure
import NodeDecl.SourceFile

/-! # Generated files on disk

A generated file is saved under its name in a directory, or compared with what is there. Saving
makes the directory where it is missing and replaces what the file held; comparing changes
nothing and tells a missing or different file by a patch.
-/

namespace NodeDecl
open Files

/-- How the file on disk stands to the generated one. -/
inductive Freshness where
  | current
  | absent (patch : String)
  | stale (patch : String)
deriving DecidableEq

namespace SourceFile

/-- The path of the file in a directory. -/
def pathIn (f : SourceFile) (directory : String) : String := joinPath directory f.name

/-- Saves the file in a directory and answers its path. -/
def save (f : SourceFile) (directory : String) (t : Tree) : Tree × Except Failure String :=
  match t.makeDirectories directory with
  | (t, .error cause) => (t, .error (.files directory cause))
  | (t, .ok ()) => match t.write (f.pathIn directory) f.text.toUTF8 with
    | .error cause => (t, .error (.files (f.pathIn directory) cause))
    | .ok written => (written, .ok (f.pathIn directory))

/-- Compares the file with the one in a directory. -/
def compare (f : SourceFile) (directory : String) (t : Tree) : Except Failure Freshness :=
  let path := f.pathIn directory
  match t.readText path with
  | .error .notFound => .ok (.absent (Diff.patch path "" f.text))
  | .error cause => .error (.files path cause)
  | .ok text =>
    if Digest.ofText text = f.digest then .ok .current
    else .ok (.stale (Diff.patch path text f.text))

/-- What is logged by `save`. -/
def saveLog (f : SourceFile) : Except Failure String → List Event
  | .ok path => [.declarationsWritten path f.text.utf8ByteSize f.digest]
  | .error _ => []

/-- What is logged by `compare`. -/
def compareLog (f : SourceFile) (directory : String) : Except Failure Freshness → List Event
  | .ok .current => [.fileCurrent (f.pathIn directory) f.digest]
  | .ok (.absent _) => [.fileAbsent (f.pathIn directory)]
  | .ok (.stale _) => [.fileStale (f.pathIn directory)]
  | .error _ => []

end SourceFile

end NodeDecl
