/-! # Binary floating point numbers

The numbers of 64-bit binary floating point: a sign and a magnitude `mantissa * 2 ^ exponent`,
the two infinities, and a value that is no number. A decimal is rounded to the nearest of them,
a tie to the even mantissa.
-/

namespace NodeDecl

inductive Binary64 where
  | nan
  | infinite (negative : Bool)
  | finite (negative : Bool) (mantissa : Nat) (exponent : Int)
deriving DecidableEq, Inhabited

namespace Binary64

/-- The least exponent, which the numbers around zero have. -/
def leastExponent : Int := -1074

/-- The greatest exponent of a number with a full mantissa. -/
def greatestExponent : Int := 971

/-- The number of bits of a full mantissa. -/
def precision : Nat := 53

/-- `n / d`, rounded to the nearest whole number, a tie to the even one. -/
def roundQuotient (n d : Nat) : Nat :=
  let q := n / d
  let twice := 2 * (n % d)
  if twice < d then q else if d < twice then q + 1 else q + q % 2

/-- The numerator and the denominator of `n / d` in units of `2 ^ e`. -/
def inUnits (n d : Nat) (e : Int) : Nat × Nat :=
  if 0 ≤ e then (n, d * Nat.pow 2 e.toNat) else (n * Nat.pow 2 (-e).toNat, d)

/-- The magnitude nearest to `n / d`, or none if that is out of range. -/
def nearest? (n d : Nat) : Option (Nat × Int) :=
  let low := max leastExponent ((n.log2 : Int) - d.log2 - precision)
  let atLow := inUnits n d low
  let e := if atLow.1 / atLow.2 < Nat.pow 2 precision then low else low + 1
  let units := inUnits n d e
  let m := roundQuotient units.1 units.2
  let full := m = Nat.pow 2 precision
  let result := if full then (m / 2, e + 1) else (m, e)
  if greatestExponent < result.2 then none else some result

/-- The number nearest to the decimal `digits * 10 ^ exponent`. Exponents far out of range are
told apart before any power is taken. -/
def ofDecimal (negative : Bool) (digits : Nat) (exponent : Int) : Binary64 :=
  if digits = 0 then finite negative 0 leastExponent
  else if 400 < exponent then infinite negative
  else if exponent + (digits.log2 / 3 + 1 : Nat) < -400 then finite negative 0 leastExponent
  else
    let ratio := if 0 ≤ exponent then (digits * Nat.pow 10 exponent.toNat, 1)
      else (digits, Nat.pow 10 (-exponent).toNat)
    match nearest? ratio.1 ratio.2 with
    | none => infinite negative
    | some (m, e) => finite negative m e

/-- The value of decimal digits. -/
def ofDigits (ds : List Char) : Nat := ds.foldl (fun n c => 10 * n + (c.toNat - 48)) 0

/-- The number that is written with the given digits before and after the point, and with a
power of ten. -/
def ofParts (negative : Bool) (whole fraction : List Char) (exponent : Int) : Binary64 :=
  ofDecimal negative (ofDigits (whole ++ fraction)) (exponent - fraction.length)

end Binary64

end NodeDecl
