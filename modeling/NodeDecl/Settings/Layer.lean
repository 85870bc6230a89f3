import NodeDecl.Data.Value
import NodeDecl.Decimal.Shortest
import NodeDecl.Text.LowerCase

/-! # Layers of settings

Settings come from several sources, the later over the earlier. Their values are merged into one
tree: a table merges key by key, any other value replaces what was there. Keys are compared in
lower case. Tables, arrays and absent values remember the file that they come from, unless
merging made them.
-/

namespace NodeDecl
open Text

/-- A value of the merged settings. -/
inductive Item where
  | absent (origin? : Option String)
  | text (s : String)
  | integer (i : Int)
  | decimal (x : Binary64)
  | flag (b : Bool)
  | array (origin? : Option String) (items : List Item)
  | table (origin? : Option String) (entries : List (String × Item))
deriving Inhabited

namespace Item

mutual

/-- A value as it stands in a file. -/
def ofData (origin : String) : Data.Value → Item
  | .nothing => .absent (some origin)
  | .text s => .text s
  | .integer i => .integer i
  | .decimal x => .decimal x
  | .flag b => .flag b
  | .list items => .array (some origin) (listOfData origin items)
  | .record entries => .table (some origin) (entriesOfData origin entries)

def listOfData (origin : String) : List Data.Value → List Item
  | [] => []
  | v :: rest => ofData origin v :: listOfData origin rest

def entriesOfData (origin : String) : List (String × Data.Value) → List (String × Item)
  | [] => []
  | (key, v) :: rest => (key, ofData origin v) :: entriesOfData origin rest

end

/-- The entries with a key replaced or added. -/
def putEntry (key : String) (v : Item) : List (String × Item) → List (String × Item)
  | [] => [(key, v)]
  | (k, old) :: rest => if k = key then (k, v) :: rest else (k, old) :: putEntry key v rest

/-- The value itself if it is a table, otherwise an empty table. -/
def asTable : Item → Option String × List (String × Item)
  | .table origin? entries => (origin?, entries)
  | _ => (none, [])

/-- The value itself if it is an array, otherwise an empty array. -/
def asArray : Item → Option String × List Item
  | .array origin? items => (origin?, items)
  | _ => (none, [])

/-- What a key of a table stands for. -/
def get? (root : Item) (key : String) : Option Item := root.asTable.2.lookup key

/-- The table with a key replaced or added; another value gives way to a table. -/
def put (root : Item) (key : String) (v : Item) : Item :=
  .table root.asTable.1 (putEntry key v root.asTable.2)

mutual

/-- Merges a value into a key of a table. -/
def merge (key : String) (root : Item) : Item → Item
  | .table _ entries =>
    root.put key (mergeAll ((root.get? key).getD (.table none [])) entries)
  | v => root.put key v

/-- Merges entries into a value, each under its key in lower case. -/
def mergeAll (target : Item) : List (String × Item) → Item
  | [] => target
  | (key, v) :: rest => mergeAll (merge (lowerCase key) target v) rest

end

end Item

end NodeDecl
