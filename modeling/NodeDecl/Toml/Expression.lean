import NodeDecl.Toml.Entries
import NodeDecl.Toml.Scalar

/-! # Reading TOML values

A value is a text, a plain value, an array, or a table on one line. Arrays may run over several
lines, hold comments and end with a comma; tables may not. The depth of nesting is bounded, and
reading recurses on what is left of it.
-/

namespace NodeDecl.Toml

/-- Reads a text or a plain value. -/
def readFlat : List Char → Option (Value × List Char)
  | '"' :: rest => (readText ('"' :: rest)).map fun p => (.text (.ofList p.1), p.2)
  | '\'' :: rest => (readText ('\'' :: rest)).map fun p => (.text (.ofList p.1), p.2)
  | cs => readScalarValue cs

/-- Reads the items of an array, up to its bracket. -/
def readItems (item : List Char → Option (Value × List Char)) (cs : List Char) :
    Option (List Value × List Char) :=
  match skipBlanks false cs with
  | ']' :: rest => some ([], rest)
  | start => match item start with
    | none => none
    | some (v, rest) => match skipBlanks false rest with
      | ']' :: rest => some ([v], rest)
      | ',' :: rest =>
        if rest.length < cs.length then (readItems item rest).map fun p => (v :: p.1, p.2)
        else none
      | _ => none
termination_by cs.length

/-- Reads the assignments of a table on one line, up to its bracket. -/
def readPairs (item : List Char → Option (Value × List Char)) (cs : List Char) :
    Option (List (Path × Value) × List Char) :=
  match readPath cs with
  | some (path, '=' :: rest) => match item (skipSpaces rest) with
    | none => none
    | some (v, rest) => match skipSpaces rest with
      | '\x7d' :: rest => some ([(path, v)], rest)
      | ',' :: rest =>
        if rest.length < cs.length then
          (readPairs item rest).map fun p => ((path, v) :: p.1, p.2)
        else none
      | _ => none
  | _ => none
termination_by cs.length

/-- Reads a table on one line, after its opening bracket. -/
def readInlineTable (item : List Char → Option (Value × List Char)) (cs : List Char) :
    Option (Value × List Char) :=
  match skipSpaces cs with
  | '\x7d' :: rest => some (.table [], rest)
  | start => match readPairs item start with
    | none => none
    | some (pairs, rest) => (Entries.ofAssignments pairs []).map fun es =>
        (.table (Entries.toValues es), rest)

/-- Reads a value that is nested no deeper than a bound. -/
def readValue : Nat → List Char → Option (Value × List Char)
  | 0, cs => readFlat cs
  | depth + 1, cs => match cs with
    | '[' :: rest => (readItems (readValue depth) rest).map fun p => (.array p.1, p.2)
    | '\x7b' :: rest => readInlineTable (readValue depth) rest
    | cs => readFlat cs

end NodeDecl.Toml
