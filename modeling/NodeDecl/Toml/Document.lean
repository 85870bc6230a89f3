import NodeDecl.Toml.Expression

/-! # TOML documents

A document is a list of statements: headers of tables, headers of tables in a list, and
assignments to the table of the header before. Its meaning is one table.
-/

namespace NodeDecl.Toml

inductive Statement where
  | header (path : Path)
  | listHeader (path : Path)
  | assignment (path : Path) (v : Value)

/-- Reads the path of a header and its closing brackets, up to the end of the line. -/
def readHeader (closing : List Char) (cs : List Char) : Option (Path × List Char) :=
  match readPath cs with
  | none => none
  | some (path, rest) =>
    if closing.isPrefixOf rest then
      (finishLine? (rest.drop closing.length)).map fun rest => (path, rest)
    else none

/-- Reads an assignment, up to the end of the line. -/
def readAssignment (cs : List Char) : Option (Statement × List Char) :=
  match readPath cs with
  | some (path, '=' :: rest) => match readValue (depthLimit - 1) (skipSpaces rest) with
    | none => none
    | some (v, rest) => (finishLine? rest).map fun rest => (.assignment path v, rest)
  | _ => none

/-- Reads a statement, at the first character of a line that is no space. -/
def readStatement : List Char → Option (Statement × List Char)
  | '[' :: '[' :: rest =>
    (readHeader [']', ']'] rest).map fun p => (.listHeader p.1, p.2)
  | '[' :: rest => (readHeader [']'] rest).map fun p => (.header p.1, p.2)
  | cs => readAssignment cs

/-- Reads the statements of a document. Lines may be empty or hold a comment. -/
def readStatements (cs : List Char) : Option (List Statement) :=
  match skipBlanks false cs with
  | [] => some []
  | start => match readStatement start with
    | none => none
    | some (s, rest) =>
      if rest.length < cs.length then (readStatements rest).map (s :: ·) else none
termination_by cs.length

/-- A document in the making: its table, and the keys of the last header. -/
structure Draft where
  root : Entries
  current : List String

/-- Applies a statement to what the statements before it made. -/
def Statement.apply (d : Draft) : Statement → Option Draft
  | .header path => (Entries.within (Entries.define path.last) path.parents d.root).map
      fun root => ⟨root, path.keys⟩
  | .listHeader path => (Entries.within (Entries.append path.last) path.parents d.root).map
      fun root => ⟨root, path.keys⟩
  | .assignment path v =>
    (Entries.within (Entries.assign path.last v path.parents) d.current d.root).map
      fun root => { d with root := root }

def Statement.applyAll (d : Draft) : List Statement → Option Draft
  | [] => some d
  | s :: rest => match s.apply d with
    | none => none
    | some d => Statement.applyAll d rest

/-- A byte order mark before a document is not part of it. -/
def dropByteOrderMark : List Char → List Char
  | '\ufeff' :: rest => rest
  | cs => cs

/-- The table that a document holds, or none if it is not well formed. -/
def readDocument (cs : List Char) : Option (List (String × Value)) :=
  match readStatements (dropByteOrderMark cs) with
  | none => none
  | some statements =>
    (Statement.applyAll ⟨[], []⟩ statements).map fun d => Entries.toValues d.root

end NodeDecl.Toml
