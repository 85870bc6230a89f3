import NodeDecl.Data.Value
import NodeDecl.Toml.Moment
import NodeDecl.Toml.Value

/-! # TOML values as data

Moments become texts. A table that begins with the reserved key is a moment too: it is written
as the text under that key.
-/

namespace NodeDecl.Toml

def momentKey : String := "$__toml_private_datetime"

/-- The moment that the value under the reserved key writes. -/
def Value.asMoment? : Value → Option Data.Value
  | .text s => (normalMoment? s.toList).map fun m => .text (.ofList m)
  | _ => none

mutual

/-- The value as data, or none if a reserved key is not followed by a moment. -/
def Value.toData? : Value → Option Data.Value
  | .text s => some (.text s)
  | .integer i => some (.integer i)
  | .decimal x => some (.decimal x)
  | .flag b => some (.flag b)
  | .moment s => some (.text s)
  | .array items => (Value.listToData? items).map .list
  | .table [] => some (.record [])
  | .table ((key, v) :: rest) =>
    if key = momentKey then v.asMoment?
    else do
      let first ← v.toData?
      let others ← Value.entriesToData? rest
      return .record ((key, first) :: others)

def Value.listToData? : List Value → Option (List Data.Value)
  | [] => some []
  | v :: rest => do
    let first ← v.toData?
    let others ← Value.listToData? rest
    return first :: others

def Value.entriesToData? : List (String × Value) → Option (List (String × Data.Value))
  | [] => some []
  | (key, v) :: rest => do
    let first ← v.toData?
    let others ← Value.entriesToData? rest
    return (key, first) :: others

end

end NodeDecl.Toml
