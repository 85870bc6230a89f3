import NodeDecl.Decimal.Reading
import NodeDecl.Toml.Unquoting

/-! # Numbers in TOML

Underscores may stand between digits. A decimal whole number has no leading zeros; one in
another base has no sign. Whole numbers fit into 64 bits. A number with a fraction or a power of
ten is a floating point number, and so are infinity and the value that is no number.
-/

namespace NodeDecl.Toml
open Text

/-- The digits of a group, with single underscores between them taken out. -/
def digitGroup? (isDigit : Char → Bool) : List Char → Option (List Char)
  | [] => none
  | [c] => if isDigit c then some [c] else none
  | c :: '_' :: rest =>
    if isDigit c then (digitGroup? isDigit rest).map (c :: ·) else none
  | c :: rest => if isDigit c then (digitGroup? isDigit rest).map (c :: ·) else none

/-- The digits of a whole number without leading zeros. -/
def wholeDigits? (cs : List Char) : Option (List Char) :=
  if cs.head? = some '0' ∧ cs ≠ ['0'] then none else digitGroup? Char.isDigit cs

/-- A whole number in a base, without a sign. -/
def readGroupInBase? (base : Nat) (cs : List Char) : Option Int :=
  (digitGroup? (fun c => (hexValue? c).any (· < base)) cs).bind (readInBase? base)

/-- A whole number. -/
def readWhole? (cs : List Char) : Option Int :=
  let i? := match cs with
    | '0' :: 'x' :: rest => readGroupInBase? 16 rest
    | '0' :: 'o' :: rest => readGroupInBase? 8 rest
    | '0' :: 'b' :: rest => readGroupInBase? 2 rest
    | cs =>
      let (negative, rest) := readSign cs
      (wholeDigits? rest).map fun ds => signed negative (Binary64.ofDigits ds)
  i?.filter fitsInt64

/-- The power of ten at the end of a floating point number. -/
def readPower? : List Char → Option Int
  | [] => some 0
  | _ :: rest =>
    let (negative, rest) := readSign rest
    (digitGroup? Char.isDigit rest).map fun ds => signed negative (Binary64.ofDigits ds)

def isGroupChar (c : Char) : Bool := c.isDigit || c == '_'

/-- A floating point number that is written with digits. Numbers beyond the greatest one are
refused, those beyond the least one are not. -/
def readFractional? (negative : Bool) (cs : List Char) : Option Binary64 := do
  let whole ← wholeDigits? (cs.takeWhile isGroupChar)
  let (fraction, power) ← match cs.dropWhile isGroupChar with
    | '.' :: rest => do
      let fraction ← digitGroup? Char.isDigit (rest.takeWhile isGroupChar)
      pure (fraction, rest.dropWhile isGroupChar)
    | rest => pure ([], rest)
  guard (fraction ≠ [] ∨ power ≠ [])
  guard (power = [] ∨ power.head? = some 'e' ∨ power.head? = some 'E')
  let x := Binary64.ofParts negative whole fraction (← readPower? power)
  guard (x ≠ .infinite false)
  return x

/-- A floating point number. -/
def readFloat? (cs : List Char) : Option Binary64 :=
  let (negative, rest) := readSign cs
  if rest = "inf".toList then some (.infinite negative)
  else if rest = "nan".toList then some .nan
  else readFractional? negative rest

end NodeDecl.Toml
