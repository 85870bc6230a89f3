import NodeDecl.Data.Json
import NodeDecl.Text.Blank

/-! # Reading JSON5

JSON with comments, names without quotes, texts in single quotes, commas after the last item, and
more ways to write numbers. Whole numbers fit into 64 bits, those in base 16 into 32.
-/

namespace NodeDecl.Data.Json5
open Text

def isLineEnd (c : Char) : Bool :=
  c == '\n' || c == '\r' || c == '\u2028' || c == '\u2029'

def isGapChar (c : Char) : Bool := c == '\ufeff' || isBlank c && c != '\u0085'

/-- What a gap between values is inside of. -/
inductive Gap where
  | blank
  | lineComment
  | comment

/-- Drops blanks and comments. Of a comment that is not closed a slash is left. -/
def skipGap : Gap → List Char → List Char
  | .comment, [] => ['/']
  | _, [] => []
  | .comment, '*' :: '/' :: rest => skipGap .blank rest
  | .comment, _ :: rest => skipGap .comment rest
  | .lineComment, c :: rest => skipGap (if isLineEnd c then .blank else .lineComment) rest
  | .blank, '/' :: '/' :: rest => skipGap .lineComment rest
  | .blank, '/' :: '*' :: rest => skipGap .comment rest
  | .blank, c :: rest => if isGapChar c then skipGap .blank rest else c :: rest

def skipBlanks : List Char → List Char := skipGap .blank

/-- Reads an escape after its backslash: a character, or nothing for the end of a line. -/
def readEscape : List Char → Option (List Char × List Char)
  | [] => none
  | '\r' :: '\n' :: rest => some ([], rest)
  | 'b' :: rest => some (['\x08'], rest)
  | 'f' :: rest => some (['\x0c'], rest)
  | 'n' :: rest => some (['\n'], rest)
  | 'r' :: rest => some (['\r'], rest)
  | 't' :: rest => some (['\t'], rest)
  | 'v' :: rest => some (['\x0b'], rest)
  | '0' :: rest => some (['\x00'], rest)
  | 'x' :: rest => (readHex 0 2 rest).map fun p => ([Char.ofNat p.1], p.2)
  | 'u' :: rest => (Json.readUnits rest).map fun p => ([p.1], p.2)
  | c :: rest =>
    if isLineEnd c then some ([], rest) else if c.isDigit then none else some ([c], rest)

/-- Reads a text after its opening quote. -/
def readText (quote : Char) (cs : List Char) : Option (List Char × List Char) :=
  match cs with
  | [] => none
  | '\\' :: rest => match readEscape rest with
    | none => none
    | some (es, tail) =>
      if tail.length ≤ rest.length then
        (readText quote tail).map fun p => (es ++ p.1, p.2)
      else none
  | c :: rest =>
    if c = quote then some ([], rest)
    else if isLineEnd c then none
    else (readText quote rest).map fun p => (c :: p.1, p.2)
termination_by cs.length

/-- Reads a whole number in base 16, after the letter that tells its base. -/
def readHexNumber (cs : List Char) : Option (Value × List Char) :=
  let isHex c := (hexValue? c).isSome
  ((readInBase? 16 (cs.takeWhile isHex)).filter (· < (UInt32.size : Int))).map fun i =>
    (.integer i, cs.dropWhile isHex)

/-- Reads the digits of a number before and after its point, if it has one. -/
def readDigits (cs : List Char) : Option ((List Char × Option (List Char)) × List Char) :=
  match spanDigits cs with
  | ([], '.' :: rest) => match spanDigits rest with
    | ([], _) => none
    | (fraction, rest) => some (([], some fraction), rest)
  | ([], _) => none
  | ('0' :: _ :: _, _) => none
  | (whole, '.' :: rest) =>
    let (fraction, rest) := spanDigits rest
    some ((whole, some fraction), rest)
  | (whole, rest) => some ((whole, none), rest)

/-- Reads a number with a point or a power of ten, or a whole number. -/
def readDecimal (negative : Bool) (cs : List Char) : Option (Value × List Char) := do
  let ((whole, fraction?), rest) ← readDigits cs
  let (power?, rest) ← Json.readPower rest
  match fraction?, power? with
  | none, none =>
    let i := signed negative (Binary64.ofDigits whole)
    guard (fitsInt64 i)
    return (.integer i, rest)
  | fraction?, power? =>
    let x := Binary64.ofParts negative whole (fraction?.getD []) (power?.getD 0)
    guard (x ≠ .infinite negative)
    return (.decimal x, rest)

/-- Reads a number. A plus stands before digits only, base 16 has no sign. -/
def readNumber : List Char → Option (Value × List Char)
  | '0' :: 'x' :: rest => readHexNumber rest
  | '0' :: 'X' :: rest => readHexNumber rest
  | '+' :: rest => readDecimal false rest
  | cs =>
    let (negative, rest) := readSign cs
    let after word := (word.toList.isPrefixOf rest, rest.drop word.length)
    match after "Infinity", after "NaN" with
    | (true, rest), _ => some (.decimal (.infinite negative), rest)
    | _, (true, rest) => some (.decimal .nan, rest)
    | _, _ => readDecimal negative rest

/-- Reads a value that is no list and no object. -/
def readFlat : List Char → Option (Value × List Char)
  | 't' :: 'r' :: 'u' :: 'e' :: rest => some (.flag true, rest)
  | 'f' :: 'a' :: 'l' :: 's' :: 'e' :: rest => some (.flag false, rest)
  | 'n' :: 'u' :: 'l' :: 'l' :: rest => some (.nothing, rest)
  | '"' :: rest => (readText '"' rest).map fun p => (.text (.ofList p.1), p.2)
  | '\'' :: rest => (readText '\'' rest).map fun p => (.text (.ofList p.1), p.2)
  | cs => readNumber cs

def isNameChar (c : Char) : Bool :=
  c.isAlphanum || c == '_' || c == '$' || (0x80 ≤ c.toNat && !isGapChar c)

/-- Reads a name, in quotes or without. -/
def readName : List Char → Option (List Char × List Char)
  | '"' :: rest => readText '"' rest
  | '\'' :: rest => readText '\'' rest
  | cs =>
    if cs.head?.any fun c => isNameChar c && !c.isDigit then
      some (cs.takeWhile isNameChar, cs.dropWhile isNameChar)
    else none

/-- Reads an entry of an object. -/
def readEntry (value : List Char → Option (Value × List Char)) (cs : List Char) :
    Option ((String × Value) × List Char) :=
  match readName cs with
  | none => none
  | some (name, rest) => match skipBlanks rest with
    | ':' :: rest => (value (skipBlanks rest)).map fun p => ((.ofList name, p.1), p.2)
    | _ => none

/-- Reads a value that is nested no deeper than a bound. -/
def readValue : Nat → List Char → Option (Value × List Char)
  | depth + 1, '[' :: rest =>
    (readBracketed skipBlanks true ']' (readValue depth) rest).map fun p => (.list p.1, p.2)
  | depth + 1, '\x7b' :: rest =>
    (readBracketed skipBlanks true '\x7d' (readEntry (readValue depth)) rest).map fun p =>
      (.record (lastOfEach p.1), p.2)
  | _, cs => readFlat cs

/-- The value that a text writes. -/
def read? (cs : List Char) : Option Value :=
  match readValue cs.length (skipBlanks cs) with
  | some (v, rest) => if skipBlanks rest = [] then some v else none
  | none => none

end NodeDecl.Data.Json5
