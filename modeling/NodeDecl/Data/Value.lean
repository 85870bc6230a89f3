import NodeDecl.Decimal.Binary64

/-! # Data

The values that all formats for settings can write: nothing, texts, numbers, truth values, lists,
and records with named entries.
-/

namespace NodeDecl.Data

inductive Value where
  | nothing
  | text (s : String)
  | integer (i : Int)
  | decimal (x : Binary64)
  | flag (b : Bool)
  | list (items : List Value)
  | record (entries : List (String × Value))
deriving Inhabited

end NodeDecl.Data
