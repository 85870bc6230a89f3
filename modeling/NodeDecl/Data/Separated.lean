/-! # Items between brackets

Lists and records are written as items with commas between them, up to a closing bracket. Some
formats allow a comma after the last item.
-/

namespace NodeDecl.Data

/-- Reads items up to a closing bracket, of which there is at least one. -/
def readSeparated {α : Type} (skip : List Char → List Char) (trailing : Bool) (close : Char)
    (item : List Char → Option (α × List Char)) (cs : List Char) :
    Option (List α × List Char) :=
  match item cs with
  | none => none
  | some (v, rest) => match skip rest with
    | ',' :: rest => match skip rest with
      | [] => none
      | c :: rest =>
        if trailing ∧ c = close then some ([v], rest)
        else if rest.length + 1 < cs.length then
          (readSeparated skip trailing close item (c :: rest)).map fun p => (v :: p.1, p.2)
        else none
    | c :: rest => if c = close then some ([v], rest) else none
    | [] => none
termination_by cs.length

/-- Reads items up to a closing bracket, after the opening one. -/
def readBracketed {α : Type} (skip : List Char → List Char) (trailing : Bool) (close : Char)
    (item : List Char → Option (α × List Char)) (cs : List Char) :
    Option (List α × List Char) :=
  match skip cs with
  | [] => none
  | c :: rest =>
    if c = close then some ([], rest) else readSeparated skip trailing close item (c :: rest)

/-- The entries with a name added, or set anew if it is there. -/
def setEntry {α : Type} (name : String) (v : α) : List (String × α) → List (String × α)
  | [] => [(name, v)]
  | (n, old) :: rest => if n = name then (n, v) :: rest else (n, old) :: setEntry name v rest

/-- The entries with the last value of each name. -/
def lastOfEach {α : Type} (entries : List (String × α)) : List (String × α) :=
  entries.foldl (fun es e => setEntry e.1 e.2 es) []

end NodeDecl.Data
