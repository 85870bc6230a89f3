import NodeDecl.CommandLine.Outcome

/-! # The program

What a run can look at is copied from the file system into a tree, the run is computed on the
tree, and what it changed there is put into the file system.
-/

namespace NodeDecl.CommandLine
open Files Text

/-- What a system file says, or nothing if it cannot be read. -/
def systemText (path : String) : IO (List Char) := do
  let content ← try IO.FS.readBinFile path catch _ => pure ByteArray.empty
  return ((String.fromUTF8? content).getD "").toList

/-- The variables of the environment, as the system lists them. -/
def listVariables : IO (List (String × String)) := do
  let lines := splitAt '\x00' (← systemText "/proc/self/environ")
  return lines.filterMap fun line => (cut? '=' line).map fun p => (.ofList p.1, .ofList p.2)

/-- The number of the user, as the status of a process gives it. -/
def userNumber? (status : List Char) : Option (List Char) :=
  (splitAt '\n' status).findSome? fun line => match splitAt '\t' line with
    | name :: number :: _ => if name = "Uid:".toList then some number else none
    | _ => none

/-- The home directory of a user, as the list of accounts gives it. -/
def homeOf? (number : List Char) (accounts : List Char) : Option String :=
  (splitAt '\n' accounts).findSome? fun line => match splitAt ':' line with
    | [_, _, id, _, _, home, _] => if id = number then some (.ofList home) else none
    | _ => none

/-- The environment of the process. -/
def readEnvironment : IO Environment := do
  let number? := userNumber? (← systemText "/proc/self/status")
  let accounts ← systemText "/etc/passwd"
  return ⟨← listVariables, number?.bind (homeOf? · accounts)⟩

def pathOfLocation (l : Location) : String := pathOfSteps true (l.reverse.map Step.child)

/-- What the file system has at a path. -/
def entryAt? (path : String) : IO (Option Entry) := do
  let path := (← IO.currentDir) / path
  if ← path.isDir then return some .directory
  if ← path.pathExists then return some (.file (← IO.FS.readBinFile path))
  return none

/-- Copies what lies along some steps into a tree. -/
def copyAlong (t : Tree) (l : Location) : List Step → IO Tree
  | [] => return t
  | s :: rest => do
    let l := match s with
      | .here => l
      | .up => l.tail
      | .child name => name :: l
    match ← entryAt? (pathOfLocation l) with
    | some e => copyAlong (t.set l e) l rest
    | none => return t

/-- Copies what lies along a path into a tree. -/
def copyPath (t : Tree) (path : String) : IO Tree :=
  let r := Route.ofPath path
  copyAlong t (if r.fromRoot then [] else t.here) r.steps

/-- The paths that a run looks at besides those of settings. -/
def Invocation.targets (i : Invocation) (environment : Environment) (t : Tree) : List String :=
  match i.settings environment t with
  | .error _ => []
  | .ok s => [i.directory, joinPath i.directory s.destination.fileName]

/-- The part of the file system that a request is about. -/
def surroundings (environment : Environment) (r : Request) : IO Tree := do
  let here := (Route.ofPath (← IO.currentDir).toString).steps.map Step.text
  let bare := Tree.bare here.reverse
  match r with
  | .run i =>
    let t ← (probedPaths environment i.file?).foldlM copyPath bare
    (i.targets environment t).foldlM copyPath t
  | _ => return bare

/-- Makes the directories and writes the files that are in one tree but not in another. -/
def putBack (start finish : Tree) : IO Unit := do
  for (l, e) in finish.entries.reverse do
    if start.at? l ≠ some e then
      match e with
      | .directory => IO.FS.createDirAll (pathOfLocation l)
      | .file content => IO.FS.writeBinFile (pathOfLocation l) content

/-- Runs in the file system and answers the exit status. -/
def runInPlace (args : List String) : IO UInt32 := do
  let environment ← readEnvironment
  let request := Request.ofArguments args
  let start ← surroundings environment request
  let outcome := request.answer environment start
  putBack start outcome.tree
  IO.print outcome.output
  IO.eprint outcome.errors
  return outcome.status.toUInt32

end NodeDecl.CommandLine

def main (args : List String) : IO UInt32 := NodeDecl.CommandLine.runInPlace args
