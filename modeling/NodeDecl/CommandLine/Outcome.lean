import NodeDecl.CommandLine.Help
import NodeDecl.CommandLine.Request
import NodeDecl.Output
import NodeDecl.Settings.Document
import NodeDecl.Settings.Loading

/-! # Outcomes

A run of the program is a function of its arguments, the environment and the file tree. Its
outcome is an exit status, two texts, and the tree that it leaves.
-/

namespace NodeDecl.CommandLine
open Files

structure Outcome where
  status : Nat
  output : String
  errors : String
  tree : Tree

/-- The exit status of a run whose arguments are refused. -/
def misuseStatus : Nat := 64

namespace Outcome

def failed (t : Tree) (f : Failure) : Outcome :=
  ⟨f.exitCode, "", "Error: " ++ f.message ++ "\n", t⟩

/-- The outcome of saving a file of declarations. -/
def ofSaving (f : SourceFile) (directory : String) (t : Tree) : Outcome :=
  match f.save directory t with
  | (t, .error failure) => failed t failure
  | (t, .ok path) =>
    ⟨0, "✅ Wrote " ++ path ++ " (" ++ toString f.typeCount ++ " types)\n", "", t⟩

/-- The outcome of comparing a file of declarations with the one on disk. -/
def ofComparing (f : SourceFile) (directory : String) (t : Tree) : Outcome :=
  let path := f.pathIn directory
  match f.compare directory t with
  | .error failure => failed t failure
  | .ok .current => ⟨0, "✅ " ++ path ++ " is up to date\n", "", t⟩
  | .ok (.absent patch) => ⟨1, "", patch ++ "❌ " ++ path ++ " does not exist\n", t⟩
  | .ok (.stale patch) =>
    ⟨1, "", patch ++ "❌ " ++ path ++ " is out of date - rerun astgen\n", t⟩

end Outcome

namespace Invocation

/-- The settings of a run: those that are loaded, with the target that its arguments name. -/
def settings (i : Invocation) (environment : Environment) (t : Tree) :
    Except Failure Settings :=
  match Settings.load t i.file? environment with
  | .error fault => .error (.settings fault)
  | .ok s => .ok { s with target := i.target?.getD s.target }

/-- Makes the declarations and does with them what is asked for. -/
def finish (i : Invocation) (s : Settings) (t : Tree) : Outcome :=
  match s.generate with
  | .error r => .failed t (.rejected r)
  | .ok f => match i.task with
    | .compare => .ofComparing f i.directory t
    | _ => .ofSaving f i.directory t

def run (i : Invocation) (environment : Environment) (t : Tree) : Outcome :=
  match i.settings environment t with
  | .error failure => .failed t failure
  | .ok s => if i.task = .print then ⟨0, s.toToml, "", t⟩ else i.finish s t

end Invocation

/-- Answers a request. -/
def Request.answer (environment : Environment) (t : Tree) : Request → Outcome
  | .misuse => ⟨misuseStatus, "", usageText, t⟩
  | .help => ⟨0, helpText, "", t⟩
  | .version => ⟨0, versionText, "", t⟩
  | .run i => i.run environment t

/-- The outcome of a run with some arguments. -/
def run (args : List String) (environment : Environment) (t : Tree) : Outcome :=
  (Request.ofArguments args).answer environment t

end NodeDecl.CommandLine
