import NodeDecl.Toml.Key
import NodeDecl.Toml.Value

/-! # Tables in the making

While a document is read, its tables are open in different ways: a header defines a table, a
longer header or a dotted key brings one into being. What may still be added to a table depends
on that, and no key is ever set twice.
-/

namespace NodeDecl.Toml

/-- How a table came into being. -/
inductive Opening where
  | header
  | longerHeader
  | dottedKey
deriving DecidableEq

/-- What a key stands for: a finished value, an open table, or a list of tables of which the
last is open. -/
inductive Entry where
  | value (v : Value)
  | table (opening : Opening) (entries : List (String × Entry))
  | tables (earlier : List (List (String × Entry))) (last : List (String × Entry))
deriving Inhabited

abbrev Entries := List (String × Entry)

/-- Replaces what a key stands for, or adds the key. -/
def Entries.put (key : String) (e : Entry) : Entries → Entries
  | [] => [(key, e)]
  | (k, old) :: rest => if k = key then (k, e) :: rest else (k, old) :: Entries.put key e rest

/-- Changes the table that the keys of a header lead to. Missing tables are made. -/
def Entries.within (f : Entries → Option Entries) : List String → Entries → Option Entries
  | [], es => f es
  | key :: rest, es => match es.lookup key with
    | none => (Entries.within f rest []).map fun sub => es.put key (.table .longerHeader sub)
    | some (.value _) => none
    | some (.table opening sub) =>
      (Entries.within f rest sub).map fun sub => es.put key (.table opening sub)
    | some (.tables earlier last) =>
      (Entries.within f rest last).map fun last => es.put key (.tables earlier last)

/-- Sets a key in the table that the keys of a dotted key lead to. Only tables that dotted keys
made, and those within them, can be reached so. -/
def Entries.assign (key : String) (v : Value) : List String → Entries → Option Entries
  | [], es => match es.lookup key with
    | none => some (es.put key (.value v))
    | some _ => none
  | parent :: rest, es => match es.lookup parent with
    | none =>
      (Entries.assign key v rest []).map fun sub => es.put parent (.table .dottedKey sub)
    | some (.value _) => none
    | some (.table opening sub) =>
      if opening = .header ∨ (rest = [] ∧ opening ≠ .dottedKey) then none
      else (Entries.assign key v rest sub).map fun sub => es.put parent (.table opening sub)
    | some (.tables earlier last) =>
      if rest = [] then none
      else (Entries.assign key v rest last).map fun last => es.put parent (.tables earlier last)

/-- Defines the table of a header. A table that a longer header made moves to the end. -/
def Entries.define (key : String) (es : Entries) : Option Entries :=
  match es.lookup key with
  | none => some (es.put key (.table .header []))
  | some (.table .longerHeader sub) =>
    some ((es.filter fun e => e.1 ≠ key) ++ [(key, .table .header sub)])
  | some _ => none

/-- Adds a table to the list of tables of a header. -/
def Entries.append (key : String) (es : Entries) : Option Entries :=
  match es.lookup key with
  | none => some (es.put key (.tables [] []))
  | some (.tables earlier last) => some (es.put key (.tables (earlier ++ [last]) []))
  | some _ => none

mutual

/-- The finished value. -/
def Entry.toValue : Entry → Value
  | .value v => v
  | .table _ es => .table (Entries.toValues es)
  | .tables earlier last =>
    .array (Entries.listToValues earlier ++ [.table (Entries.toValues last)])

def Entries.toValues : List (String × Entry) → List (String × Value)
  | [] => []
  | (key, e) :: rest => (key, e.toValue) :: Entries.toValues rest

def Entries.listToValues : List (List (String × Entry)) → List Value
  | [] => []
  | es :: rest => .table (Entries.toValues es) :: Entries.listToValues rest

end

/-- The table of some assignments with dotted keys. -/
def Entries.ofAssignments : List (Path × Value) → Entries → Option Entries
  | [], es => some es
  | (p, v) :: rest, es => match Entries.assign p.last v p.parents es with
    | none => none
    | some es => Entries.ofAssignments rest es

end NodeDecl.Toml
