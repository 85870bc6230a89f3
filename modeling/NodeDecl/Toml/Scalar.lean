import NodeDecl.Toml.Moment
import NodeDecl.Toml.Number
import NodeDecl.Toml.Value

/-! # Plain values in TOML

A plain value is written without quotes or brackets: a truth value, a number, a date or a time.
It ends where a character comes that none of them can hold.
-/

namespace NodeDecl.Toml

def isScalarChar (c : Char) : Bool :=
  c.isAlphanum || c == '_' || c == '+' || c == '-' || c == '.' || c == ':'

/-- The plain value that a text holds, other than a date or a time. -/
def scalar? (cs : List Char) : Option Value :=
  if cs = "true".toList then some (.flag true)
  else if cs = "false".toList then some (.flag false)
  else match readWhole? cs with
    | some i => some (.integer i)
    | none => (readFloat? cs).map .decimal

/-- Reads a plain value. -/
def readScalarValue (cs : List Char) : Option (Value × List Char) :=
  match readMoment cs with
  | some (moment, rest) =>
    if rest.head?.any isScalarChar then none else some (.moment (.ofList moment), rest)
  | none => (scalar? (cs.takeWhile isScalarChar)).map fun v => (v, cs.dropWhile isScalarChar)

end NodeDecl.Toml
