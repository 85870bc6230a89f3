import NodeDecl.Decimal.Binary64

/-! # Shortest decimals

A finite number is shown with the fewest digits that round to it, and of those the nearest. The
digits are shown in place, without a power of ten.
-/

namespace NodeDecl.Binary64

/-- The interval of decimals that round to `m * 2 ^ e`, in units of `2 ^ (e - 2)`. Below a power
of two the numbers lie closer together. -/
def roundingInterval (m : Nat) (e : Int) : Nat × Nat :=
  (4 * m - if m = Nat.pow 2 (precision - 1) ∧ leastExponent < e then 1 else 2, 4 * m + 2)

/-- Compares `a * 10 ^ i` with `b * 2 ^ j`. -/
def compareScaled (a : Nat) (i : Int) (b : Nat) (j : Int) : Ordering :=
  compare (a * Nat.pow 10 i.toNat * Nat.pow 2 (-j).toNat)
    (b * Nat.pow 2 j.toNat * Nat.pow 10 (-i).toNat)

/-- Whether `c * 10 ^ i` rounds to `m * 2 ^ e`; the ends of the interval do if `m` is even. -/
def roundsTo (m : Nat) (e : Int) (c : Nat) (i : Int) : Bool :=
  let (low, high) := roundingInterval m e
  let below := compareScaled c i low (e - 2)
  let above := compareScaled c i high (e - 2)
  if m % 2 = 0 then below != .lt && above != .gt else below == .gt && above == .lt

/-- The greatest `c` with `c * 10 ^ i` at most `m * 2 ^ e`. -/
def floorAt (m : Nat) (e i : Int) : Nat :=
  (m * Nat.pow 2 e.toNat * Nat.pow 10 (-i).toNat) / (Nat.pow 10 i.toNat * Nat.pow 2 (-e).toNat)

/-- The decimal with the unit `10 ^ i` that rounds to `m * 2 ^ e`: of the two around the number
the nearer, of two as near the greater. -/
def atUnit (m : Nat) (e i : Int) : Option Nat :=
  let c := floorAt m e i
  let lower := 0 < c && roundsTo m e c i
  let upper := roundsTo m e (c + 1) i
  if lower && upper then
    if compareScaled (2 * c + 1) i (2 * m) e == .gt then some c else some (c + 1)
  else if lower then some c
  else if upper then some (c + 1)
  else none

/-- The digits and the exponent of the first unit, from `10 ^ i` down, that has a decimal. -/
def firstUnit (m : Nat) (e : Int) : Nat → Int → Nat × Int
  | 0, i => (floorAt m e i, i)
  | fuel + 1, i => match atUnit m e i with
    | some c => (c, i)
    | none => firstUnit m e fuel (i - 1)

/-- The shortest decimal of a magnitude: seventeen digits always suffice. -/
def shortest (m : Nat) (e : Int) : Nat × Int :=
  firstUnit m e 20 (((m.log2 : Int) + e) * 30103 / 100000 + 1)

/-- A decimal in positional notation. -/
def positional (c : Nat) (i : Int) : List Char :=
  let ds := Nat.toDigits 10 c
  if 0 ≤ i then ds ++ List.replicate i.toNat '0'
  else
    let places := (-i).toNat
    if places < ds.length then ds.take (ds.length - places) ++ '.' :: ds.drop (ds.length - places)
    else '0' :: '.' :: List.replicate (places - ds.length) '0' ++ ds

/-- The text of a number. A whole number has no point, and zero keeps its sign. -/
def text : Binary64 → String
  | nan => "NaN"
  | infinite negative => if negative then "-inf" else "inf"
  | finite negative m e =>
    let magnitude := if m = 0 then ['0'] else positional (shortest m e).1 (shortest m e).2
    .ofList (if negative then '-' :: magnitude else magnitude)

/-- The text of a number that always shows a point, if it is finite. -/
def textWithPoint (x : Binary64) : String :=
  match x with
  | finite .. => if x.text.toList.contains '.' then x.text else x.text ++ ".0"
  | _ => x.text

end NodeDecl.Binary64
