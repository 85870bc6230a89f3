import NodeDecl.Digest
import NodeDecl.Target.Basic

/-! # The log

What is logged is data: an event says what happened, and its level, message and fields are the
words in which the log shows it.
-/

namespace NodeDecl

inductive Event where
  | variantRead (variant : String) (fields : Nat)
  | memberBoxed (variant field type : String)
  | memberRespelled (declared written : String)
  | memberSuspicious (base variant field type : String)
  | declarationsGenerated (target : Target) (variants : Nat) (digest : Digest)
  | declarationsWritten (path : String) (bytes : Nat) (digest : Digest)
  | fileAbsent (path : String)
  | fileCurrent (path : String) (digest : Digest)
  | fileStale (path : String)
  | settingsNamed (path : String)
deriving DecidableEq

namespace Event

inductive Level where
  | debug
  | info
  | warn
deriving DecidableEq

def Level.name : Level → String
  | debug => "DEBUG"
  | info => "INFO"
  | warn => "WARN"

def level : Event → Level
  | variantRead .. | memberBoxed .. | memberRespelled .. | declarationsGenerated ..
  | settingsNamed .. => .debug
  | declarationsWritten .. | fileAbsent .. | fileCurrent .. | fileStale .. => .info
  | memberSuspicious .. => .warn

def message : Event → String
  | variantRead .. => "parsed variant"
  | memberBoxed .. => "boxed self reference"
  | memberRespelled .. => "re-spelled pre-annotated self reference"
  | memberSuspicious base .. => "type looks like a reference to `" ++ base ++
      "` but does not match it exactly; emitted unchanged"
  | declarationsGenerated .. => "generated declarations"
  | declarationsWritten .. => "wrote declarations"
  | fileAbsent .. => "no generated file on disk"
  | fileCurrent .. => "up to date"
  | fileStale .. => "generated file is stale"
  | settingsNamed .. => "loading grammar configuration"

/-- The named values that stand beside the message. -/
def fields : Event → List (String × String)
  | variantRead variant count => [("variant", variant), ("fields", toString count)]
  | memberBoxed variant field type => [("variant", variant), ("field", field), ("ty", type)]
  | memberRespelled declared written => [("from", declared), ("to", written)]
  | memberSuspicious _ variant field type =>
    [("variant", variant), ("field", field), ("ty", type)]
  | declarationsGenerated target variants digest =>
    [("target_lang", target.title), ("variants", toString variants), ("checksum", digest.hex)]
  | declarationsWritten path bytes digest =>
    [("path", path), ("bytes", toString bytes), ("checksum", digest.hex)]
  | fileAbsent path => [("path", path)]
  | fileCurrent path digest => [("path", path), ("checksum", digest.hex)]
  | fileStale path => [("path", path)]
  | settingsNamed path => [("path", path)]

end Event

end NodeDecl
