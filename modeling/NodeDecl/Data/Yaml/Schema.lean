import NodeDecl.Data.Value
import NodeDecl.Decimal.Reading

/-! # What YAML scalars mean

A scalar without quotes is a number, a truth value or nothing if it looks so, and a text
otherwise. A tag asks for one kind of value; a scalar that is not of that kind is nothing.
-/

namespace NodeDecl.Data.Yaml

def infinityWords : List String :=
  [".inf", ".Inf", ".INF", "+.inf", "+.Inf", "+.INF", "-.inf", "-.Inf", "-.INF"]

def notANumberWords : List String := [".nan", ".NAN"]

/-- Whether the word is for a number that cannot be written with digits. Such words begin with a
point and have no value here. -/
def isSpecialWord (word : String) : Bool := word ∈ infinityWords ++ notANumberWords

def integerOf? (cs : List Char) : Option Int :=
  match cs with
  | '0' :: 'x' :: ds => small (readInBase? 16 ds)
  | '0' :: 'o' :: ds => small (readInBase? 8 ds)
  | '+' :: ds => small (readInteger? ds)
  | ds => small (readInteger? ds)
where
  small (i? : Option Int) : Option Int := i?.filter fitsInt64

/-- The value of a scalar without quotes and tags. None if it is a special word. -/
def plainValue? (cs : List Char) : Option Value :=
  let word := String.ofList cs
  match integerOf? cs with
  | some i => some (.integer i)
  | none =>
    if word = "~" ∨ word = "null" then some .nothing
    else if word = "true" then some (.flag true)
    else if word = "false" then some (.flag false)
    else if isSpecialWord word then none
    else match Binary64.read? cs with
      | some x => some (.decimal x)
      | none => some (.text word)

/-- The value of a scalar without quotes that has a tag. -/
def taggedValue? (tag : String) (cs : List Char) : Option Value :=
  let word := String.ofList cs
  match tag with
  | "!!bool" => some (if word = "true" then .flag true
      else if word = "false" then .flag false else .nothing)
  | "!!int" => some (match (readInteger? cs).filter fitsInt64 with
      | some i => .integer i
      | none => .nothing)
  | "!!float" =>
    if isSpecialWord word then none
    else some (match Binary64.read? cs with
      | some x => .decimal x
      | none => .nothing)
  | "!!null" => some .nothing
  | _ => some (.text word)

/-- The value of a scalar without quotes, with a tag or without. -/
def scalarValue? (tag? : Option String) (cs : List Char) : Option Value :=
  match tag? with
  | some tag => taggedValue? tag cs
  | none => plainValue? cs

/-- The name that a key of a mapping is. -/
def keyName? : Value → Option String
  | .text s => some s
  | .integer i => some (toString i)
  | _ => none

end NodeDecl.Data.Yaml
