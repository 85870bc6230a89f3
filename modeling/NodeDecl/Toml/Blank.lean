/-! # Characters between TOML values

Spaces and tabs separate values on a line. A line ends with a line feed, or with a carriage
return and a line feed. A comment runs to the end of its line.
-/

namespace NodeDecl.Toml

def isSpace (c : Char) : Bool := c == ' ' || c == '\t'

/-- A character that may stand in comments and texts: no control character but the tab. -/
def isPlain (c : Char) : Bool := c == '\t' || (0x20 ≤ c.toNat && c.toNat != 0x7F)

def skipSpaces (cs : List Char) : List Char := cs.dropWhile isSpace

/-- Drops the end of a line. -/
def dropBreak? : List Char → Option (List Char)
  | '\n' :: rest => some rest
  | '\r' :: '\n' :: rest => some rest
  | _ => none

/-- Drops spaces, line ends and comments. -/
def skipBlanks (inComment : Bool) : List Char → List Char
  | [] => []
  | '\n' :: rest => skipBlanks false rest
  | '\r' :: '\n' :: rest => skipBlanks false rest
  | c :: rest =>
    if inComment then if isPlain c then skipBlanks true rest else c :: rest
    else if isSpace c then skipBlanks false rest
    else if c = '#' then skipBlanks true rest
    else c :: rest

/-- Drops spaces and line ends. -/
def skipLayout : List Char → List Char
  | '\n' :: rest => skipLayout rest
  | '\r' :: '\n' :: rest => skipLayout rest
  | c :: rest => if isSpace c then skipLayout rest else c :: rest
  | [] => []

/-- Drops the rest of a line that holds nothing more but spaces and a comment. -/
def finishLine? (cs : List Char) : Option (List Char) :=
  let rest := match skipSpaces cs with
    | '#' :: comment => comment.dropWhile isPlain
    | rest => rest
  if rest = [] then some [] else dropBreak? rest

end NodeDecl.Toml
