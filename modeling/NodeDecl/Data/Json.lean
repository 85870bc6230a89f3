import NodeDecl.Data.Separated
import NodeDecl.Data.Value
import NodeDecl.Decimal.Stepwise
import NodeDecl.Text.Hexadecimal

/-! # Reading JSON

Values are nested to a bounded depth. Of the entries of an object with one name the last one
counts. Whole numbers that do not fit into 64 bits become decimals, and so does a negative zero.
-/

namespace NodeDecl.Data.Json
open Text

def isBlank (c : Char) : Bool := c == ' ' || c == '\n' || c == '\t' || c == '\r'

def skipBlanks (cs : List Char) : List Char := cs.dropWhile isBlank

/-- The character of a pair of surrogates. -/
def joinSurrogates (high low : Nat) : Char :=
  Char.ofNat (0x10000 + (high - 0xD800) * 0x400 + (low - 0xDC00))

/-- Reads the four digits of an escape, and those of a second one after a high surrogate. -/
def readUnits (cs : List Char) : Option (Char × List Char) :=
  match readHex 0 4 cs with
  | none => none
  | some (n, rest) =>
    if 0xD800 ≤ n ∧ n < 0xDC00 then match rest with
      | '\\' :: 'u' :: rest => match readHex 0 4 rest with
        | none => none
        | some (m, rest) =>
          if 0xDC00 ≤ m ∧ m < 0xE000 then some (joinSurrogates n m, rest) else none
      | _ => none
    else if n.isValidChar then some (Char.ofNat n, rest) else none

/-- Reads an escape after its backslash. -/
def readEscape : List Char → Option (Char × List Char)
  | '"' :: rest => some ('"', rest)
  | '\\' :: rest => some ('\\', rest)
  | '/' :: rest => some ('/', rest)
  | 'b' :: rest => some ('\x08', rest)
  | 'f' :: rest => some ('\x0c', rest)
  | 'n' :: rest => some ('\n', rest)
  | 'r' :: rest => some ('\r', rest)
  | 't' :: rest => some ('\t', rest)
  | 'u' :: rest => readUnits rest
  | _ => none

/-- Reads a text after its opening quote. -/
def readText (cs : List Char) : Option (List Char × List Char) :=
  match cs with
  | [] => none
  | '"' :: rest => some ([], rest)
  | '\\' :: rest => match readEscape rest with
    | none => none
    | some (c, tail) =>
      if tail.length ≤ rest.length then (readText tail).map fun p => (c :: p.1, p.2) else none
  | c :: rest =>
    if c.toNat < 0x20 then none else (readText rest).map fun p => (c :: p.1, p.2)
termination_by cs.length

/-- Reads the fraction of a number, if there is one. -/
def readFraction : List Char → Option (Option (List Char) × List Char)
  | '.' :: rest => match spanDigits rest with
    | ([], _) => none
    | (ds, rest) => some (some ds, rest)
  | cs => some (none, cs)

/-- Reads the power of ten of a number, if there is one. -/
def readPower : List Char → Option (Option Int × List Char)
  | c :: rest =>
    if c = 'e' ∨ c = 'E' then
      let (negative, rest) := readSign rest
      match spanDigits rest with
      | ([], _) => none
      | (ds, rest) => some (some (signed negative (Binary64.ofDigits ds)), rest)
    else some (none, c :: rest)
  | [] => some (none, [])

/-- The value of a whole number. -/
def wholeValue (negative : Bool) (ds : List Char) : Option Value :=
  let i := signed negative (Binary64.ofDigits ds)
  if fitsInt64 i ∧ ¬(negative ∧ i = 0) then some (.integer i)
  else (Binary64.ofPartsStepwise? negative ds [] 0).map .decimal

/-- Reads a number after its sign. -/
def readMagnitude (negative : Bool) (cs : List Char) : Option (Value × List Char) :=
  match spanDigits cs with
  | ([], _) => none
  | (ds, rest) =>
    if ds.head? = some '0' ∧ ds ≠ ['0'] then none
    else do
      let (fraction?, rest) ← readFraction rest
      let (power?, rest) ← readPower rest
      let v ← match fraction?, power? with
        | none, none => wholeValue negative ds
        | fraction?, power? =>
          (Binary64.ofPartsStepwise? negative ds (fraction?.getD []) (power?.getD 0)).map .decimal
      return (v, rest)

/-- Reads a value that is no list and no object. -/
def readFlat : List Char → Option (Value × List Char)
  | '"' :: rest => (readText rest).map fun p => (.text (.ofList p.1), p.2)
  | 't' :: 'r' :: 'u' :: 'e' :: rest => some (.flag true, rest)
  | 'f' :: 'a' :: 'l' :: 's' :: 'e' :: rest => some (.flag false, rest)
  | 'n' :: 'u' :: 'l' :: 'l' :: rest => some (.nothing, rest)
  | '-' :: rest => readMagnitude true rest
  | cs => readMagnitude false cs

/-- Reads an entry of an object. -/
def readEntry (value : List Char → Option (Value × List Char)) (cs : List Char) :
    Option ((String × Value) × List Char) :=
  match cs with
  | '"' :: rest => match readText rest with
    | none => none
    | some (name, rest) => match skipBlanks rest with
      | ':' :: rest => (value (skipBlanks rest)).map fun p => ((.ofList name, p.1), p.2)
      | _ => none
  | _ => none

/-- Reads a value that is nested no deeper than a bound. -/
def readValue : Nat → List Char → Option (Value × List Char)
  | depth + 1, '[' :: rest =>
    (readBracketed skipBlanks false ']' (readValue depth) rest).map fun p => (.list p.1, p.2)
  | depth + 1, '\x7b' :: rest =>
    (readBracketed skipBlanks false '\x7d' (readEntry (readValue depth)) rest).map fun p =>
      (.record (lastOfEach p.1), p.2)
  | _, cs => readFlat cs

/-- How deep values are nested at most. -/
def depthLimit : Nat := 127

/-- The value that a text writes. -/
def read? (cs : List Char) : Option Value :=
  match readValue depthLimit (skipBlanks cs) with
  | some (v, rest) => if skipBlanks rest = [] then some v else none
  | none => none

end NodeDecl.Data.Json
