import NodeDecl.Decimal.Binary64

/-! # TOML values

Dates and times are kept in writing: nothing here counts with them. A table is looked into by
key; each way of looking says what kind of value it expects there.
-/

namespace NodeDecl.Toml

inductive Value where
  | text (s : String)
  | integer (i : Int)
  | decimal (x : Binary64)
  | flag (b : Bool)
  | moment (s : String)
  | array (items : List Value)
  | table (entries : List (String × Value))
deriving Inhabited

namespace Value

/-- What a key stands for. Only a table has keys. -/
def get? (key : String) : Value → Option Value
  | table entries => entries.lookup key
  | _ => none

def asText? : Value → Option String
  | text s => some s
  | _ => none

/-- The text under a key, if there is one; none if there is something else. -/
def textOf? (v : Value) (key : String) : Option (Option String) :=
  match v.get? key with
  | none => some none
  | some found => found.asText?.map some

/-- The texts under a key, if there are some; none if there is something else. -/
def textsOf? (v : Value) (key : String) : Option (Option (List String)) :=
  match v.get? key with
  | none => some none
  | some (array items) => (items.mapM asText?).map some
  | some _ => none

/-- The table under a key, empty if there is none; none if there is something else. -/
def sectionOf? (v : Value) (key : String) : Option Value :=
  match v.get? key with
  | none => some (table [])
  | some (table entries) => some (table entries)
  | some _ => none

end Value

end NodeDecl.Toml
