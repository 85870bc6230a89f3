import NodeDecl.Data.Separated
import NodeDecl.Data.Value
import NodeDecl.Text.Blank
import NodeDecl.Text.Hexadecimal

/-! # Reading INI files

A file holds properties, some of them in sections. All values are texts. A comment is a line that
begins with a semicolon or a number sign. A name runs up to an equals sign or a colon, a value to
the end of its line, or to its closing quote and on from there.
-/

namespace NodeDecl.Data.Ini
open Text

/-- Reads an escape after its backslash: a character, or nothing for the end of a line. -/
def readEscape : List Char → Option (List Char × List Char)
  | [] => none
  | '0' :: rest => some (['\x00'], rest)
  | 'a' :: rest => some (['\x07'], rest)
  | 'b' :: rest => some (['\x08'], rest)
  | 't' :: rest => some (['\t'], rest)
  | 'r' :: rest => some (['\r'], rest)
  | 'n' :: rest => some (['\n'], rest)
  | '\n' :: rest => some ([], rest)
  | 'x' :: rest => match readHex 0 4 rest with
    | none => none
    | some (n, rest) => if n.isValidChar then some ([Char.ofNat n], rest) else none
  | c :: rest => some ([c], rest)

/-- Reads characters up to one that ends them, and leaves that one. The end of the file may end
them or not. -/
def readUntil (isEnd : Char → Bool) (atEnd : Bool) (cs : List Char) :
    Option (List Char × List Char) :=
  match cs with
  | [] => if atEnd then some ([], []) else none
  | c :: rest =>
    if isEnd c then some ([], c :: rest)
    else if c = '\\' then match readEscape rest with
      | none => none
      | some (es, tail) =>
        if tail.length ≤ rest.length then
          (readUntil isEnd atEnd tail).map fun p => (es ++ p.1, p.2)
        else none
    else (readUntil isEnd atEnd rest).map fun p => (c :: p.1, p.2)
termination_by cs.length

def isLineEnd (c : Char) : Bool := c == '\n' || c == '\r'

def isNameEnd (c : Char) : Bool := c == '=' || c == ':'

/-- Reads the rest of a line. -/
def readLine (cs : List Char) : Option (List Char × List Char) := readUntil isLineEnd true cs

/-- Reads a text up to its closing quote, and the rest of the line with it. -/
def readQuoted (quote : Char) (cs : List Char) : Option (List Char × List Char) := do
  let (inner, rest) ← readUntil (· == quote) false cs
  let (outer, rest) ← readLine (rest.drop 1)
  return (inner ++ outer, rest)

/-- Reads a value after the sign that ends its name. -/
def readValue (cs : List Char) : Option (List Char × List Char) :=
  let value := cs.dropWhile fun c => isBlank c && !isLineEnd c
  let read : Option (List Char × List Char) := match value with
    | '"' :: rest => readQuoted '"' rest
    | '\'' :: rest => readQuoted '\'' rest
    | rest => readLine rest
  read.map fun p => (trim p.1, p.2)

inductive Line where
  | heading (name : String)
  | property (name value : String)

/-- Reads a heading after its opening bracket. -/
def readHeading (cs : List Char) : Option (Line × List Char) :=
  (readUntil (· == ']') false cs).map fun p => (.heading (.ofList (trim p.1)), p.2.drop 1)

/-- Reads a property. -/
def readProperty (cs : List Char) : Option (Line × List Char) := do
  let (name, rest) ← readUntil isNameEnd false cs
  let (value, rest) ← readValue (rest.drop 1)
  guard (trim name ≠ [])
  return (.property (.ofList (trim name)) (.ofList value), rest)

/-- Reads the lines of a file. A comment begins its line. -/
def readLines (inComment lineStart : Bool) (cs : List Char) : Option (List Line) :=
  match cs with
  | [] => some []
  | c :: rest =>
    if inComment then readLines (c ≠ '\n') (c = '\n') rest
    else if isBlank c then readLines false (c = '\n') rest
    else if c = ';' ∨ c = '#' then if lineStart then readLines true false rest else none
    else match if c = '[' then readHeading rest else readProperty (c :: rest) with
      | none => none
      | some (line, tail) =>
        if tail.length ≤ rest.length then (readLines false false tail).map (line :: ·) else none
termination_by cs.length

/-- The properties before the first heading, and the sections after it. -/
def sections : List Line → List (String × Value) × List (String × Value)
  | [] => ([], [])
  | .heading name :: rest =>
    let (properties, others) := sections rest
    ([], (name, .record (lastOfEach properties)) :: others)
  | .property name value :: rest =>
    let (properties, others) := sections rest
    ((name, .text value) :: properties, others)

/-- The record that a file writes: its first properties and its sections. -/
def read? (cs : List Char) : Option Value :=
  (readLines false true cs).map fun lines =>
    let (properties, others) := sections lines
    .record (lastOfEach (properties ++ others))

end NodeDecl.Data.Ini
