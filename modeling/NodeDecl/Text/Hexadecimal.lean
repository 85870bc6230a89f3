/-! # Hexadecimal digits -/

namespace NodeDecl.Text

def hexValue? (c : Char) : Option Nat :=
  if c.isDigit then some (c.toNat - 48)
  else if 'a' ≤ c ∧ c ≤ 'f' then some (c.toNat - 87)
  else if 'A' ≤ c ∧ c ≤ 'F' then some (c.toNat - 55)
  else none

/-- Reads a fixed number of hexadecimal digits, after those with the value `n`. -/
def readHex (n : Nat) : Nat → List Char → Option (Nat × List Char)
  | 0, cs => some (n, cs)
  | _ + 1, [] => none
  | count + 1, c :: rest => match hexValue? c with
    | none => none
    | some d => readHex (16 * n + d) count rest

theorem readHex_length {n count m : Nat} {cs rest : List Char}
    (h : readHex n count cs = some (m, rest)) : rest.length ≤ cs.length := by
  induction count generalizing n cs with
  | zero =>
    simp only [readHex, Option.some.injEq, Prod.mk.injEq] at h
    exact Nat.le_of_eq (congrArg List.length h.2.symm)
  | succ count ih =>
    cases cs with
    | nil => simp [readHex] at h
    | cons c tail =>
      simp only [readHex] at h
      split at h
      · simp at h
      · exact Nat.le_succ_of_le (ih h)

/-- The hexadecimal digits of a number, without leading zeros. -/
def hexDigits (n : Nat) : List Char := Nat.toDigits 16 n

end NodeDecl.Text
