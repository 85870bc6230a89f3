import NodeDecl.Files.Tree
import NodeDecl.Grammar.Fault
import NodeDecl.Settings.Fault

/-! # Failures

Everything that can stop a run after its arguments are accepted: a grammar table that is
refused, an operation on files, or settings that cannot be loaded.
-/

namespace NodeDecl

inductive Failure where
  | rejected (r : Rejection)
  | files (path : String) (cause : Files.Cause)
  | settings (fault : SettingsFault)
deriving DecidableEq

def Rejection.message (r : Rejection) : String :=
  "Invalid variant specification `" ++ r.entry ++ "`: " ++ r.fault.reason

def Failure.message : Failure → String
  | rejected r => r.message
  | files path cause => "IO error at " ++ path ++ ": " ++ cause.message
  | settings fault => "Configuration error: " ++ fault.message

/-- The exit status of a run that fails. -/
def Failure.exitCode (_ : Failure) : Nat := 1

end NodeDecl
