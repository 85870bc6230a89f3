import NodeDecl.Decimal.Reading

/-! # Decimals rounded in steps

A decimal can be rounded step by step: its digits are cut to a whole number of 64 bits, that
number is rounded, and the result is multiplied or divided by powers of ten that are rounded
themselves. With few digits and small powers the result is the nearest number; otherwise it may
be a neighbour of it.
-/

namespace NodeDecl

/-- The number before a decimal digit, with that digit. -/
def withDigit (n : Nat) (c : Char) : Nat := 10 * n + (c.toNat - 48)

/-- Goes on with the digits of a number as long as it fits into 64 bits. -/
def takeDigits (n : Nat) : List Char → Nat × List Char
  | [] => (n, [])
  | c :: rest =>
    if withDigit n c < UInt64.size then takeDigits (withDigit n c) rest else (n, c :: rest)

namespace Binary64

/-- The power of ten, rounded; it is a whole number. -/
def roundedPower (k : Nat) : Nat :=
  match nearest? (Nat.pow 10 k) 1 with
  | none => 0
  | some (m, e) => if 0 ≤ e then m * Nat.pow 2 e.toNat else m / Nat.pow 2 (-e).toNat

/-- A magnitude times `n / d`, rounded. -/
def scale? (m : Nat) (e : Int) (n d : Nat) : Option (Nat × Int) :=
  if 0 ≤ e then nearest? (m * Nat.pow 2 e.toNat * n) d
  else nearest? (m * n) (Nat.pow 2 (-e).toNat * d)

/-- A magnitude times a power of ten, in steps of at most 308 places. None if it is out of
range. -/
def scaleByTens? : Nat → Nat → Int → Int → Option (Nat × Int)
  | 0, m, e, _ => some (m, e)
  | steps + 1, m, e, k =>
    if m = 0 then some (0, leastExponent)
    else if 308 < k then none
    else if 0 ≤ k then scale? m e (roundedPower k.toNat) 1
    else if -308 ≤ k then scale? m e 1 (roundedPower (-k).toNat)
    else match scale? m e 1 (roundedPower 308) with
      | none => none
      | some (m, e) => scaleByTens? steps m e (k + 308)

/-- The number `n * 10 ^ k`, or none if it is out of range. Three steps reach zero from any
number of 64 bits. -/
def stepwise? (negative : Bool) (n : Nat) (k : Int) : Option Binary64 :=
  match nearest? n 1 with
  | none => none
  | some (m, e) => (scaleByTens? 4 m e k).map fun p => finite negative p.1 p.2

/-- The greatest power of ten that is read. -/
def powerLimit : Int := Int32.maxValue.toInt

/-- The number with the given digits before and after the point and a power of ten, or none if
it is out of range. -/
def ofPartsStepwise? (negative : Bool) (whole fraction : List Char) (power : Int) :
    Option Binary64 :=
  let (n, left) := takeDigits 0 whole
  let (n, cut) := takeDigits n fraction
  let k : Int := left.length - (fraction.length - cut.length : Nat)
  if powerLimit < power.natAbs then
    if n ≠ 0 ∧ 0 < power then none else some (finite negative 0 leastExponent)
  else stepwise? negative n (k + power)

end Binary64

end NodeDecl
