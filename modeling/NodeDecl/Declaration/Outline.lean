import NodeDecl.Target.Basic
import NodeDecl.Text.Split

/-! # Outlines of declarations

A file of declarations is read line by line into its outline: the module of the token type, the
structs with their members, and the union with its cases. A line that has no place in such a
file makes the reading fail, and nothing may follow the union.
-/

namespace NodeDecl
open Text

/-- A declared type with the name and the type of each part, as they are written. -/
structure Outline.Block where
  name : String
  parts : List (String × String)
deriving DecidableEq

structure Outline where
  tokenModule : String
  structs : List Outline.Block
  union : Outline.Block
deriving DecidableEq

namespace Outline

/-- The number of declarations. -/
def typeCount (o : Outline) : Nat := o.structs.length + 1

/-- The two names on a line, the second behind a colon and a space or in parentheses. -/
def pair? (separator : Char) (text : List Char) : Option (String × String) :=
  (cut? separator text).map fun p => (.ofList p.1, .ofList p.2)

/-- A name and a type with a colon and a space between them. -/
def typed? (text : List Char) : Option (String × String) :=
  match cut? ':' text with
  | some (name, ' ' :: type) => some (.ofList name, .ofList type)
  | _ => none

/-- A member of a struct. -/
def member? (line : List Char) : Target → Option (String × String)
  | .zig => (between? "    ".toList [','] line).bind typed?
  | .rust => (between? "    pub ".toList [','] line).bind typed?

/-- A case of the union. -/
def case? (line : List Char) : Target → Option (String × String)
  | .zig => (between? "    ".toList [','] line).bind typed?
  | .rust => (between? "    ".toList [')', ','] line).bind (pair? '(')

/-- The line that closes a declaration. -/
def closing : Target → List Char
  | .zig => ['\x7d', ';']
  | .rust => ['\x7d']

def deriveLine : List Char := "#[derive(Debug, Clone)]".toList

/-- Reads the lines before the declarations. -/
def readHead : Target → List (List Char) → Option (String × List (List Char))
  | .zig, std :: token :: rest =>
    if std = "const std = @import(\"std\");".toList then
      (between? "const Token = @import(\"".toList "\").Token;".toList token).map
        fun m => (.ofList m, rest)
    else none
  | .rust, lint :: box :: token :: [] :: rest =>
    if lint = "#[allow(unused_imports)]".toList ∧ box = "use std::boxed::Box;".toList then
      (between? "use ".toList "::Token;".toList token).map fun m => (.ofList m, rest)
    else none
  | _, _ => none

/-- Reads the line or lines that open a struct. -/
def openStruct? : Target → List (List Char) → Option (String × List (List Char))
  | .zig, line :: rest =>
    (between? "const ".toList " = struct \x7b".toList line).map fun n => (.ofList n, rest)
  | .rust, derived :: line :: rest =>
    if derived = deriveLine then
      (between? "pub struct ".toList " \x7b".toList line).map fun n => (.ofList n, rest)
    else none
  | _, _ => none

/-- Reads the line or lines that open the union. -/
def openUnion? : Target → List (List Char) → Option (String × List (List Char))
  | .zig, line :: rest =>
    (between? "pub const ".toList " = union(enum) \x7b".toList line).map
      fun n => (.ofList n, rest)
  | .rust, lint :: derived :: line :: rest =>
    if lint = "#[allow(non_camel_case_types)]".toList ∧ derived = deriveLine then
      (between? "pub enum ".toList " \x7b".toList line).map fun n => (.ofList n, rest)
    else none
  | _, _ => none

/-- Reads parts up to the line that closes the declaration. -/
def readParts (part? : List Char → Option (String × String)) (stop : List Char) :
    List (List Char) → Option (List (String × String) × List (List Char))
  | [] => none
  | line :: rest =>
    if line = stop then some ([], rest)
    else match part? line, readParts part? stop rest with
      | some part, some (parts, rest) => some (part :: parts, rest)
      | _, _ => none

/-- Reads structs, each with an empty line after it, for as long as a line opens one. -/
def readStructs (t : Target) (lines : List (List Char)) :
    Option (List Block × List (List Char)) :=
  match openStruct? t lines with
  | none => some ([], lines)
  | some (name, start) => match readParts (member? · t) (closing t) start with
    | some (parts, [] :: rest) =>
      if rest.length < lines.length then
        (readStructs t rest).map fun p => (⟨name, parts⟩ :: p.1, p.2)
      else none
    | _ => none
termination_by lines.length

/-- Reads the union, which ends the file. -/
def readUnion (t : Target) (lines : List (List Char)) : Option Block :=
  match openUnion? t lines with
  | none => none
  | some (name, start) => match readParts (case? · t) (closing t) start with
    | some (parts, [[]]) => some ⟨name, parts⟩
    | _ => none

/-- The outline of a file of declarations. -/
def read (t : Target) (text : String) : Option Outline :=
  match readHead t (splitAt '\n' text.toList) with
  | none => none
  | some (tokenModule, lines) => match readStructs t lines with
    | none => none
    | some (structs, rest) => (readUnion t rest).map fun union => ⟨tokenModule, structs, union⟩

end Outline

end NodeDecl
