import NodeDecl.Toml.Unquoting

/-! # Keys in TOML

A key is bare or quoted. Keys joined by dots, with spaces around the dots, make a path.
-/

namespace NodeDecl.Toml

/-- Paths and nested values stay below this depth. -/
def depthLimit : Nat := 80

def isBareChar (c : Char) : Bool := c.isAlphanum || c == '_' || c == '-'

/-- Reads one key. -/
def readKey : List Char → Option (String × List Char)
  | '"' :: rest => (readBasic rest).map fun p => (.ofList p.1, p.2)
  | '\'' :: rest => (readLiteral rest).map fun p => (.ofList p.1, p.2)
  | cs =>
    let key := cs.takeWhile isBareChar
    if key = [] then none else some (.ofList key, cs.dropWhile isBareChar)

/-- A path of keys: those that lead to a table, and the last one in it. -/
structure Path where
  parents : List String
  last : String
deriving DecidableEq, Inhabited

def Path.cons (key : String) (p : Path) : Path := { p with parents := key :: p.parents }

def Path.keys (p : Path) : List String := p.parents ++ [p.last]

/-- Reads keys joined by dots, and the spaces around them. -/
def readKeys (cs : List Char) : Option (Path × List Char) :=
  match readKey (skipSpaces cs) with
  | none => none
  | some (key, rest) => match skipSpaces rest with
    | '.' :: rest =>
      if rest.length < cs.length then (readKeys rest).map fun p => (p.1.cons key, p.2) else none
    | rest => some (⟨[], key⟩, rest)
termination_by cs.length

/-- Reads a path that is not too deep. -/
def readPath (cs : List Char) : Option (Path × List Char) :=
  (readKeys cs).filter fun p => p.1.keys.length < depthLimit

end NodeDecl.Toml
