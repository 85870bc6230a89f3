import NodeDecl.Target.Basic
import NodeDecl.Text.Split

/-! # Arguments

An argument names an option, separates options from what follows, or is plain. An option has a
long name behind two dashes, some have a letter behind one. A value can be attached: to a long
name behind an equals sign, to a letter with or without one.
-/

namespace NodeDecl.CommandLine
open Text

/-- What an option with a value sets. -/
inductive Setting where
  | file
  | target
deriving DecidableEq

/-- What an option without a value asks for. -/
inductive Flag where
  | check
  | print
deriving DecidableEq

/-- One argument by its look. -/
inductive Argument where
  | plain (value : String)
  | separator
  | setting (s : Setting) (value? : Option String)
  | flag (f : Flag)
  | help
  | version
  | unknown
deriving DecidableEq

namespace Argument

/-- An option by its long name. Options that need no value take none. -/
def ofLong (name : String) (value? : Option String) : Argument :=
  match name, value? with
  | "config", v => .setting .file v
  | "target", v => .setting .target v
  | "check", none => .flag .check
  | "print-config", none => .flag .print
  | "help", none => .help
  | "version", none => .version
  | _, _ => .unknown

/-- The value attached to a letter. -/
def attached? : List Char → Option String
  | [] => none
  | '=' :: rest => some (.ofList rest)
  | rest => some (.ofList rest)

/-- An option by its letter. What follows the letter of an option without a value has no
effect. -/
def ofLetter (letter : Char) (rest : List Char) : Argument :=
  match letter with
  | 'c' => .setting .file (attached? rest)
  | 't' => .setting .target (attached? rest)
  | 'h' => .help
  | 'V' => .version
  | _ => .unknown

/-- What an argument is. A single dash is plain. -/
def ofText (s : String) : Argument :=
  match s.toList with
  | ['-', '-'] => .separator
  | '-' :: '-' :: rest => match cut? '=' rest with
    | some (name, value) => ofLong (.ofList name) (some (.ofList value))
    | none => ofLong (.ofList rest) none
  | '-' :: letter :: rest => ofLetter letter rest
  | _ => .plain s

end Argument

end NodeDecl.CommandLine
