import NodeDecl.CommandLine.Argument

/-! # Requests

The arguments are read from left to right, and the first that settles the matter wins: one that
is wrong, or one that asks for help or for the version. Otherwise they are a request for a run if
they name one directory and no two tasks.
-/

namespace NodeDecl.CommandLine

/-- What a run does with the declarations or the settings. -/
inductive Task where
  | save
  | compare
  | print
deriving DecidableEq

structure Invocation where
  directory : String
  file? : Option String
  target? : Option Target
  task : Task
deriving DecidableEq

inductive Request where
  | misuse
  | help
  | version
  | run (i : Invocation)
deriving DecidableEq

/-- What the arguments read so far have set. -/
structure Draft where
  directory? : Option String := none
  file? : Option String := none
  target? : Option Target := none
  check : Bool := false
  print : Bool := false
deriving DecidableEq

namespace Draft

/-- Names the directory, which is not empty and is named once. -/
def place? (d : Draft) (value : String) : Option Draft :=
  if value = "" ∨ d.directory?.isSome then none else some { d with directory? := some value }

/-- Sets what is not set yet. The name of a file is not empty. -/
def set? (d : Draft) (value : String) : Setting → Option Draft
  | .file =>
    if value = "" ∨ d.file?.isSome then none else some { d with file? := some value }
  | .target => match Target.ofName? value with
    | none => none
    | some t => if d.target?.isSome then none else some { d with target? := some t }

/-- Raises a flag, which can be raised once. -/
def raise? (d : Draft) : Flag → Option Draft
  | .check => if d.check then none else some { d with check := true }
  | .print => if d.print then none else some { d with print := true }

def task? (d : Draft) : Option Task :=
  match d.check, d.print with
  | false, false => some .save
  | true, false => some .compare
  | false, true => some .print
  | true, true => none

/-- The request that all arguments make. -/
def request (d : Draft) : Request :=
  match d.directory?, d.task? with
  | some directory, some task => .run ⟨directory, d.file?, d.target?, task⟩
  | _, _ => .misuse

/-- Reads the arguments behind the separator. -/
def readPlain (d : Draft) : List String → Request
  | [] => d.request
  | value :: rest => match d.place? value with
    | none => .misuse
    | some d => d.readPlain rest

/-- Reads the arguments. A value that is not attached is the next argument, if that is plain. -/
def read (d : Draft) : List String → Request
  | [] => d.request
  | arg :: rest => match Argument.ofText arg with
    | .plain value => match d.place? value with
      | none => .misuse
      | some d => d.read rest
    | .separator => d.readPlain rest
    | .setting s (some value) => match d.set? value s with
      | none => .misuse
      | some d => d.read rest
    | .setting s none => match rest with
      | [] => .misuse
      | next :: rest => match Argument.ofText next with
        | .plain value => match d.set? value s with
          | none => .misuse
          | some d => d.read rest
        | _ => .misuse
    | .flag f => match d.raise? f with
      | none => .misuse
      | some d => d.read rest
    | .help => .help
    | .version => .version
    | .unknown => .misuse

end Draft

/-- The request that some arguments make. -/
def Request.ofArguments (args : List String) : Request := Draft.read {} args

end NodeDecl.CommandLine
