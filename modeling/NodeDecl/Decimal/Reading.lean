import NodeDecl.Decimal.Binary64
import NodeDecl.Text.Hexadecimal

/-! # Reading decimals

A decimal has an optional sign, digits before and after an optional point, of which one side may
be empty, and an optional power of ten. Infinities and the value that is no number are written
as words, in any case.
-/

namespace NodeDecl

/-- The digits at the start of a text, and the rest. -/
def spanDigits (cs : List Char) : List Char × List Char :=
  (cs.takeWhile Char.isDigit, cs.dropWhile Char.isDigit)

/-- A sign at the start of a text, true for a minus, and the rest. -/
def readSign : List Char → Bool × List Char
  | '-' :: rest => (true, rest)
  | '+' :: rest => (false, rest)
  | cs => (false, cs)

def signed (negative : Bool) (n : Nat) : Int := if negative then -(n : Int) else n

/-- A whole number with an optional sign, of at least one digit. -/
def readInteger? (cs : List Char) : Option Int :=
  let (negative, ds) := readSign cs
  if ds ≠ [] ∧ ds.all Char.isDigit then some (signed negative (Binary64.ofDigits ds)) else none

/-- A whole number with an optional sign in a base, of at least one digit. -/
def readInBase? (base : Nat) (cs : List Char) : Option Int :=
  let (negative, ds) := readSign cs
  (if ds = [] then none else ds.mapM fun c => (Text.hexValue? c).filter (· < base)).map fun vs =>
    signed negative (vs.foldl (fun n v => base * n + v) 0)

/-- Whether a whole number fits into 64 bits with a sign. -/
def fitsInt64 (i : Int) : Bool := Int64.minValue.toInt ≤ i && i ≤ Int64.maxValue.toInt

/-- A power of ten at the end of a text; nothing is a power of zero. -/
def readExponent? : List Char → Option Int
  | [] => some 0
  | c :: rest => if c = 'e' ∨ c = 'E' then readInteger? rest else none

/-- A decimal without its sign. -/
def readMagnitude? (negative : Bool) (cs : List Char) : Option Binary64 :=
  let (whole, rest) := spanDigits cs
  let (fraction, rest) := match rest with
    | '.' :: rest => spanDigits rest
    | rest => ([], rest)
  if whole = [] ∧ fraction = [] then none
  else (readExponent? rest).map (Binary64.ofParts negative whole fraction)

/-- A decimal, an infinity, or the value that is no number. -/
def Binary64.read? (cs : List Char) : Option Binary64 :=
  let (negative, rest) := readSign cs
  let word := rest.map Char.toLower
  if word = "inf".toList ∨ word = "infinity".toList then some (.infinite negative)
  else if word = "nan".toList then some .nan
  else readMagnitude? negative rest

end NodeDecl
