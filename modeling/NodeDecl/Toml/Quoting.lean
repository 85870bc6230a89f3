/-! # Quoting text in TOML

TOML has four forms of text: basic and literal, each on one line or over several. A text is
written in the first form, in this order, that needs no escape for it but that of a tab: basic,
literal, long basic, long literal. A text that no form holds as it is becomes basic, over
several lines if it has line feeds.
-/

namespace NodeDecl.Toml

inductive Quoting where
  | basic
  | literal
  | longBasic
  | longLiteral
deriving DecidableEq

/-- A character that no text holds as it is: a control character other than tab and line feed. -/
def isControl (c : Char) : Bool :=
  (c.toNat < 0x20 && c != '\t' && c != '\n') || c.toNat == 0x7F

/-- The length of the longest run of a character, with `here` of them just before the text. -/
def longestRunFrom (q : Char) (here : Nat) : List Char → Nat
  | [] => here
  | c :: rest => if c = q then longestRunFrom q (here + 1) rest
    else max here (longestRunFrom q 0 rest)

def longestRun (q : Char) (s : List Char) : Nat := longestRunFrom q 0 s

/-- The form in which a text is written. -/
def Quoting.choose (s : List Char) : Quoting :=
  let controls := s.any isControl
  let escapes := s.contains '\\'
  let lines := s.contains '\n'
  let doubles := longestRun '"' s
  let singles := longestRun '\'' s
  if !controls && !escapes && !lines && doubles == 0 then .basic
  else if !controls && !lines && singles == 0 then .literal
  else if !controls && !escapes && doubles ≤ 2 then .longBasic
  else if !controls && singles ≤ 2 then .longLiteral
  else if lines then .longBasic
  else .basic

def upperHexDigit (n : Nat) : Char := Char.ofNat (if n < 10 then 48 + n else 55 + n)

/-- A character of a basic text that is neither a quote nor a line feed. -/
def escapeChar (c : Char) : List Char :=
  match c with
  | '\x08' => ['\\', 'b']
  | '\t' => ['\\', 't']
  | '\x0c' => ['\\', 'f']
  | '\r' => ['\\', 'r']
  | '\\' => ['\\', '\\']
  | c => if isControl c then
      ['\\', 'u', '0', '0', upperHexDigit (c.toNat / 16), upperHexDigit (c.toNat % 16)]
    else [c]

/-- The inside of a basic text on one line. -/
def escapeBasic (s : List Char) : List Char :=
  s.flatMap fun c => match c with
    | '"' => ['\\', '"']
    | '\n' => ['\\', 'n']
    | c => escapeChar c

/-- The inside of a basic text over several lines, after `run` quotes. Of three quotes in a row
the third is escaped, so that they do not end the text. -/
def escapeLongBasic (run : Nat) : List Char → List Char
  | [] => []
  | '"' :: rest =>
    if run = 2 then '\\' :: '"' :: escapeLongBasic 0 rest
    else '"' :: escapeLongBasic (run + 1) rest
  | '\n' :: rest => '\n' :: escapeLongBasic 0 rest
  | c :: rest => escapeChar c ++ escapeLongBasic 0 rest

/-- A line feed after the opening quotes is not part of the text: it keeps a text with several
lines together. -/
def leadingBreak (s : List Char) : List Char := if s.contains '\n' then ['\n'] else []

def Quoting.write (s : List Char) : Quoting → List Char
  | .basic => '"' :: escapeBasic s ++ ['"']
  | .literal => '\'' :: s ++ ['\'']
  | .longBasic => ['"', '"', '"'] ++ leadingBreak s ++ escapeLongBasic 0 s ++ ['"', '"', '"']
  | .longLiteral => ['\'', '\'', '\''] ++ leadingBreak s ++ s ++ ['\'', '\'', '\'']

/-- A text as a TOML value. -/
def writeText (s : String) : List Char := (Quoting.choose s.toList).write s.toList

/-- An array of texts: up to one on one line, more on a line each. -/
def writeTexts : List String → List Char
  | [] => ['[', ']']
  | [s] => '[' :: writeText s ++ [']']
  | ss => '[' :: '\n' :: ss.flatMap (fun s => "    ".toList ++ writeText s ++ [',', '\n']) ++ [']']

/-- A line that sets a key. -/
def writeAssignment (key : String) (value : List Char) : List Char :=
  key.toList ++ " = ".toList ++ value ++ ['\n']

end NodeDecl.Toml
