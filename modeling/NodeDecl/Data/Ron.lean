import NodeDecl.Data.Separated
import NodeDecl.Data.Value
import NodeDecl.Decimal.Reading
import NodeDecl.Text.Blank

/-! # Reading RON

Values are numbers, texts, truth values, optional values, lists, tuples, maps, and structures with
or without a name. A structure is a record of its fields, a tuple a list, and a name alone is
nothing.
-/

namespace NodeDecl.Data.Ron
open Text

/-- Drops blanks and comments. Comments over several lines may be nested; a line of its own is a
comment of depth zero. Of a comment that is not closed a slash is left. -/
def skipGap : Option Nat → List Char → List Char
  | none, '/' :: '/' :: rest => skipGap (some 0) rest
  | none, '/' :: '*' :: rest => skipGap (some 1) rest
  | none, c :: rest => if isBlank c then skipGap none rest else c :: rest
  | some 0, c :: rest => skipGap (if c = '\n' then none else some 0) rest
  | some (depth + 1), '/' :: '*' :: rest => skipGap (some (depth + 2)) rest
  | some (depth + 1), '*' :: '/' :: rest =>
    skipGap (if depth = 0 then none else some depth) rest
  | some (depth + 1), _ :: rest => skipGap (some (depth + 1)) rest
  | some (_ + 1), [] => ['/']
  | _, [] => []

def skipBlanks : List Char → List Char := skipGap none

def isNameStart (c : Char) : Bool := c.isAlpha || c == '_'

def isNameChar (c : Char) : Bool := c.isAlphanum || c == '_'

/-- Reads a name. -/
def readName (cs : List Char) : Option (List Char × List Char) :=
  if cs.head?.any isNameStart then
    some (cs.takeWhile isNameChar, cs.dropWhile isNameChar)
  else none

/-- Reads an escape after its backslash. -/
def readEscape : List Char → Option (Char × List Char)
  | '\'' :: rest => some ('\'', rest)
  | '"' :: rest => some ('"', rest)
  | '\\' :: rest => some ('\\', rest)
  | 'n' :: rest => some ('\n', rest)
  | 'r' :: rest => some ('\r', rest)
  | 't' :: rest => some ('\t', rest)
  | '0' :: rest => some ('\x00', rest)
  | 'x' :: rest => (readHex 0 2 rest).map fun p => (Char.ofNat p.1, p.2)
  | 'u' :: '\x7b' :: rest =>
    let digits := rest.takeWhile (· ≠ '\x7d')
    match readInBase? 16 digits, rest.drop digits.length with
    | some i, '\x7d' :: rest =>
      if digits.length ≤ 6 ∧ i.toNat.isValidChar then some (Char.ofNat i.toNat, rest) else none
    | _, _ => none
  | _ => none

/-- Reads a text after its opening quote. -/
def readText (cs : List Char) : Option (List Char × List Char) :=
  match cs with
  | [] => none
  | '"' :: rest => some ([], rest)
  | '\\' :: rest => match readEscape rest with
    | none => none
    | some (c, tail) =>
      if tail.length ≤ rest.length then (readText tail).map fun p => (c :: p.1, p.2) else none
  | c :: rest => (readText rest).map fun p => (c :: p.1, p.2)
termination_by cs.length

/-- Reads up to a closing quote with as many number signs after it. -/
def readRawText (closing : List Char) : List Char → Option (List Char × List Char)
  | [] => none
  | c :: rest =>
    if closing.isPrefixOf (c :: rest) then some ([], (c :: rest).drop closing.length)
    else (readRawText closing rest).map fun p => (c :: p.1, p.2)

/-- Reads a text without escapes, after its first letter. -/
def readRaw (cs : List Char) : Option (List Char × List Char) :=
  let signs := cs.takeWhile (· = '#')
  match cs.drop signs.length with
  | '"' :: rest => readRawText ('"' :: signs) rest
  | _ => none

/-- Reads a character after its opening quote. -/
def readChar : List Char → Option (Char × List Char)
  | '\\' :: rest => match readEscape rest with
    | some (c, '\'' :: rest) => some (c, rest)
    | _ => none
  | c :: '\'' :: rest => if c = '\'' then none else some (c, rest)
  | _ => none

def isNumberChar (c : Char) : Bool :=
  c.isAlphanum || c == '.' || c == '_' || c == '+' || c == '-'

/-- The value of a number: whole if it is written so and fits into 64 bits. -/
def numberValue (cs : List Char) : Option Value :=
  let (negative, word) := readSign (cs.filter (· ≠ '_'))
  let i? : Option Int := match word with
    | '0' :: 'x' :: ds => readInBase? 16 ds
    | '0' :: 'o' :: ds => readInBase? 8 ds
    | '0' :: 'b' :: ds => readInBase? 2 ds
    | ds => if ds ≠ [] ∧ ds.all Char.isDigit then some (Binary64.ofDigits ds) else none
  match (i?.map fun i => if negative then -i else i).filter fitsInt64 with
  | some i => some (.integer i)
  | none =>
    if word = "inf".toList then some (.decimal (.infinite negative))
    else if word = "NaN".toList then some (.decimal .nan)
    else (readMagnitude? negative word).map .decimal

/-- Reads a number. -/
def readNumber (cs : List Char) : Option (Value × List Char) :=
  (numberValue (cs.takeWhile isNumberChar)).map fun v => (v, cs.dropWhile isNumberChar)

/-- Reads a value that holds no other value. -/
def readFlat : List Char → Option (Value × List Char)
  | '"' :: rest => (readText rest).map fun p => (.text (.ofList p.1), p.2)
  | '\'' :: rest => (readChar rest).map fun p => (.text (.singleton p.1), p.2)
  | 'r' :: '"' :: rest => (readRaw ('"' :: rest)).map fun p => (.text (.ofList p.1), p.2)
  | 'r' :: '#' :: rest => (readRaw ('#' :: rest)).map fun p => (.text (.ofList p.1), p.2)
  | cs => readNumber cs

/-- Reads a field of a structure. -/
def readField (value : List Char → Option (Value × List Char)) (cs : List Char) :
    Option ((String × Value) × List Char) :=
  match readName cs with
  | none => none
  | some (name, rest) => match skipBlanks rest with
    | ':' :: rest => (value (skipBlanks rest)).map fun p => ((.ofList name, p.1), p.2)
    | _ => none

/-- Reads an entry of a map, whose key is a text. -/
def readEntry (value : List Char → Option (Value × List Char)) (cs : List Char) :
    Option ((String × Value) × List Char) :=
  match value cs with
  | some (.text key, rest) => match skipBlanks rest with
    | ':' :: rest => (value (skipBlanks rest)).map fun p => ((key, p.1), p.2)
    | _ => none
  | _ => none

/-- Whether a structure with named fields follows its opening bracket. -/
def hasFields (cs : List Char) : Bool :=
  match readName (skipBlanks cs) with
  | some (_, rest) => (skipBlanks rest).head? == some ':'
  | none => false

/-- Reads a tuple or a structure after its opening bracket. -/
def readStructure (value : List Char → Option (Value × List Char)) (cs : List Char) :
    Option (Value × List Char) :=
  if (skipBlanks cs).head? = some ')' then some (.nothing, (skipBlanks cs).drop 1)
  else if hasFields cs then
    (readBracketed skipBlanks true ')' (readField value) cs).map fun p =>
      (.record (lastOfEach p.1), p.2)
  else (readBracketed skipBlanks true ')' value cs).map fun p => (.list p.1, p.2)

/-- Reads what a name begins: a word for a value, or a structure. -/
def readNamed (value : List Char → Option (Value × List Char)) (name : String)
    (cs : List Char) : Option (Value × List Char) :=
  if name = "true" then some (.flag true, cs)
  else if name = "false" then some (.flag false, cs)
  else if name = "None" then some (.nothing, cs)
  else if name = "inf" then some (.decimal (.infinite false), cs)
  else if name = "NaN" then some (.decimal .nan, cs)
  else match name, skipBlanks cs with
    | "Some", '(' :: rest => match readBracketed skipBlanks true ')' value rest with
      | some ([v], rest) => some (v, rest)
      | _ => none
    | "Some", _ => none
    | _, '(' :: rest => readStructure value rest
    | _, _ => some (.nothing, cs)

/-- Reads a value that is nested no deeper than a bound. -/
def readValue : Nat → List Char → Option (Value × List Char)
  | 0, _ => none
  | depth + 1, cs => match cs with
    | '[' :: rest =>
      (readBracketed skipBlanks true ']' (readValue depth) rest).map fun p => (.list p.1, p.2)
    | '\x7b' :: rest =>
      (readBracketed skipBlanks true '\x7d' (readEntry (readValue depth)) rest).map fun p =>
        (.record (lastOfEach p.1), p.2)
    | '(' :: rest => readStructure (readValue depth) rest
    | cs => match readFlat cs, readName cs with
      | some p, _ => some p
      | none, some (name, rest) => readNamed (readValue depth) (.ofList name) rest
      | none, none => none

/-- How deep values are nested at most. -/
def depthLimit : Nat := 128

/-- The value that a text writes. -/
def read? (cs : List Char) : Option Value :=
  match readValue depthLimit (skipBlanks cs) with
  | some (v, rest) => if skipBlanks rest = [] then some v else none
  | none => none

end NodeDecl.Data.Ron
