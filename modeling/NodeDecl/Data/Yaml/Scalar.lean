import NodeDecl.Data.Yaml.Place
import NodeDecl.Text.Hexadecimal

/-! # YAML scalars

A scalar is a text without quotes, in quotes, or in a block of lines of its own. Where it runs over
several lines, a single line end becomes a space and empty lines become line ends, unless the
block keeps its lines as they are.
-/

namespace NodeDecl.Data.Yaml
open Text

/-- What stands between two words of a scalar: blanks, a line end with some empty lines after it,
or a line end that is taken out. -/
inductive Joint where
  | blanks (cs : List Char)
  | folded (emptyLines : Nat)
  | joined (emptyLines : Nat)

namespace Joint

def chars : Joint → List Char
  | blanks cs => cs
  | folded 0 => [' ']
  | folded n => List.replicate n '\n'
  | joined n => List.replicate n '\n'

/-- The joint with a blank after it; blanks at the start of a line do not count. -/
def withBlank (c : Char) : Joint → Joint
  | blanks cs => blanks (cs ++ [c])
  | j => j

/-- The joint with a line end after it. -/
def withBreak : Joint → Joint
  | blanks _ => folded 0
  | folded n => folded (n + 1)
  | joined n => joined (n + 1)

end Joint

/-- Reads a text without quotes to the end of its line. A colon before a blank ends it, and so
does a comment, or a mark between brackets. -/
def readPlainLine (flow : Bool) (blanks : List Char) : List Char → List Char × List Char
  | [] => ([], [])
  | c :: rest =>
    if isBreak c then ([], c :: rest)
    else if isSpace c then readPlainLine flow (blanks ++ [c]) rest
    else if blanks ≠ [] ∧ c = '#' then ([], c :: rest)
    else if c = ':' ∧ (isOver rest ∨ flow ∧ rest.head?.any isFlowMark) then ([], c :: rest)
    else if flow ∧ isFlowMark c then ([], c :: rest)
    else
      let (text, left) := readPlainLine flow [] rest
      (blanks ++ c :: text, left)

/-- Skips line ends and blanks: the joint that they make, the rest, and its column. None if a tab
indents a line that is not indented enough. -/
def skipLines (indent column : Nat) (j : Joint) : List Char → Option (Joint × List Char × Nat)
  | [] => some (j, [], column)
  | '\r' :: '\n' :: rest => skipLines indent 0 j.withBreak rest
  | c :: rest =>
    if isBreak c then skipLines indent 0 j.withBreak rest
    else if isSpace c then
      if c = '\t' ∧ column < indent then none else skipLines indent (column + 1) j rest
    else some (j, c :: rest, column)

/-- Reads a text without quotes. In a block its further lines are indented. -/
def readPlain (flow : Bool) (indent : Nat) (p : Place) : Option (List Char × Place) :=
  let (line, left) := readPlainLine flow [] p.rest
  let here := p.goTo left
  if line = [] then none
  else match left.dropWhile isSpace with
    | c :: rest =>
      if isBreak c then match skipLines indent 0 (.blanks []) (c :: rest) with
        | none => none
        | some (j, next, column) =>
          let there := { p with rest := next, column := column }
          if there.isEnd ∨ next.head? = some '#' ∨ (!flow && column < indent) then
            some (line, here)
          else if next.length < p.rest.length then
            match readPlain flow indent there with
            | none => some (line, here)
            | some (more, after) => some (line ++ j.chars ++ more, after)
          else none
      else some (line, here)
    | [] => some (line, here)
termination_by p.rest.length

/-- The escapes of one letter. -/
def escapes : List (Char × Char) :=
  [('0', '\x00'), ('a', '\x07'), ('b', '\x08'), ('t', '\t'), ('\t', '\t'), ('n', '\n'),
   ('v', '\x0b'), ('f', '\x0c'), ('r', '\r'), ('e', '\x1b'), (' ', ' '), ('"', '"'),
   ('\'', '\''), ('/', '/'), ('\\', '\\'), ('N', '\u0085'), ('_', '\u00a0'), ('L', '\u2028'),
   ('P', '\u2029')]

/-- Reads the code point of a character. -/
def readCode (count : Nat) (cs : List Char) : Option (List Char × List Char) :=
  match readHex 0 count cs with
  | none => none
  | some (n, rest) => if n.isValidChar then some ([Char.ofNat n], rest) else none

/-- Reads an escape after its backslash: a character, or nothing for the end of a line. -/
def readEscape : List Char → Option (List Char × List Char)
  | [] => none
  | '\r' :: '\n' :: rest => some ([], rest)
  | 'x' :: rest => readCode 2 rest
  | 'u' :: rest => readCode 4 rest
  | 'U' :: rest => readCode 8 rest
  | c :: rest =>
    if isBreak c then some ([], rest) else (escapes.lookup c).map fun e => ([e], rest)

/-- Reads a text after its opening quote, with what stands before its next word. -/
def readQuoted (quote : Char) (j : Joint) (cs : List Char) : Option (List Char × List Char) :=
  match cs with
  | [] => none
  | '\r' :: '\n' :: rest => if isMarker rest then none else readQuoted quote j.withBreak rest
  | '\'' :: '\'' :: rest =>
    let quotes := if quote = '\'' then ['\''] else ['\'', '\'']
    (readQuoted quote (.blanks []) rest).map fun p => (j.chars ++ quotes ++ p.1, p.2)
  | c :: rest =>
    if isBreak c then if isMarker rest then none else readQuoted quote j.withBreak rest
    else if isSpace c then readQuoted quote (j.withBlank c) rest
    else if c = quote then some (j.chars, rest)
    else if c = '\\' ∧ quote = '"' then match readEscape rest with
      | none => none
      | some (es, next) =>
        if next.length ≤ rest.length then
          (readQuoted quote (if es = [] then .joined 0 else .blanks []) next).map fun p =>
            (j.chars ++ es ++ p.1, p.2)
        else none
    else (readQuoted quote (.blanks []) rest).map fun p => (j.chars ++ c :: p.1, p.2)
termination_by cs.length

/-- What becomes of the line ends after the last line of a block of text. -/
inductive Chomp where
  | strip
  | clip
  | keep
deriving DecidableEq

/-- Reads the marks after the sign of a block of text: how its end is chomped, and how far it is
indented if that is given. -/
def readBlockMarks : List Char → Option (Chomp × Nat × List Char)
  | '-' :: rest => some (withIndent .strip rest)
  | '+' :: rest => some (withIndent .keep rest)
  | c :: rest =>
    if c = '0' then none
    else if c.isDigit then match rest with
      | '-' :: rest => some (.strip, c.toNat - 48, rest)
      | '+' :: rest => some (.keep, c.toNat - 48, rest)
      | rest => some (.clip, c.toNat - 48, rest)
    else some (.clip, 0, c :: rest)
  | [] => some (.clip, 0, [])
where
  withIndent (chomp : Chomp) : List Char → Chomp × Nat × List Char
    | c :: rest =>
      if c.isDigit && c != '0' then (chomp, c.toNat - 48, rest) else (chomp, 0, c :: rest)
    | [] => (chomp, 0, [])

/-- Skips empty lines and the indentation of the next line, which is at most `indent` if that is
not zero: the number of line ends, the widest indentation, the rest, and its column. -/
def skipIndent (indent column breaks widest : Nat) :
    List Char → Option (Nat × Nat × List Char × Nat)
  | [] => some (breaks, max widest column, [], column)
  | '\r' :: '\n' :: rest => skipIndent indent 0 (breaks + 1) (max widest column) rest
  | c :: rest =>
    if isBreak c then skipIndent indent 0 (breaks + 1) (max widest column) rest
    else if indent = 0 ∨ column < indent then
      if c = ' ' then skipIndent indent (column + 1) breaks (max widest column) rest
      else if c = '\t' then none
      else some (breaks, max widest column, c :: rest, column)
    else some (breaks, max widest column, c :: rest, column)

/-- The line ends before a line of a block of text, and the line. -/
structure BlockLine where
  breaks : Nat
  text : List Char

/-- The lines of a block of text from a place on, the line ends after the last of them, and what
follows. -/
def readBlockLines (indent : Nat) (breaks column : Nat) (cs : List Char) :
    Option (List BlockLine × Nat × List Char × Nat) :=
  if column ≠ indent ∨ cs = [] then some ([], breaks, cs, column)
  else
    let line := cs.takeWhile fun c => !isBreak c
    match cs.drop line.length with
    | [] => some ([⟨breaks, line⟩], 0, [], column + line.length)
    | c :: rest => match skipIndent indent 0 1 0 (dropBreak (c :: rest)) with
      | none => none
      | some (breaks', _, next, column') =>
        if next.length < cs.length then
          (readBlockLines indent breaks' column' next).map fun p =>
            (⟨breaks, line⟩ :: p.1, p.2)
        else none
termination_by cs.length

/-- The text of folded lines. The line end before a line becomes a space, unless empty lines
follow it, or one of the two lines begins with a blank. -/
def foldLines (afterBlank : Bool) : List BlockLine → List Char
  | [] => []
  | l :: rest =>
    let blank := l.text.head?.any isSpace
    (if afterBlank ∨ blank then List.replicate l.breaks '\n'
      else if l.breaks = 1 then [' '] else List.replicate (l.breaks - 1) '\n') ++
      l.text ++ foldLines blank rest

/-- The text of lines that are kept. -/
def keepLines (lines : List BlockLine) : List Char :=
  lines.flatMap fun l => List.replicate l.breaks '\n' ++ l.text

/-- The line ends that are left at the end of a block of text. -/
def chompBreaks (c : Chomp) (breaks : Nat) : List Char :=
  match c with
  | .strip => []
  | .clip => List.replicate (min breaks 1) '\n'
  | .keep => List.replicate breaks '\n'

/-- Reads a block of text after its sign, inside of what is indented by `indent`, if anything. -/
def readBlock (folded : Bool) (indent : Int) (p : Place) : Option (List Char × Place) := do
  let (chomp, given, rest) ← readBlockMarks p.rest
  let rest := match rest.dropWhile isSpace with
    | '#' :: comment => comment.dropWhile fun c => !isBreak c
    | rest => rest
  guard (rest.head?.all isBreak)
  let (breaks, widest, next, column) ← skipIndent
    (if given = 0 then 0 else (max indent 0).toNat + given) 0 0 0 (dropBreak rest)
  let depth := if given = 0 then max widest (max (indent + 1) 1).toNat
    else (max indent 0).toNat + given
  let (lines, left, after, column) ← readBlockLines depth breaks column next
  let text := match lines with
    | [] => []
    | l :: others =>
      List.replicate l.breaks '\n' ++ l.text ++
        if folded then foldLines (l.text.head?.any isSpace) others else keepLines others
  let ending := if lines = [] then (if chomp = .keep then List.replicate left '\n' else [])
    else chompBreaks chomp left
  return (text ++ ending, { p with rest := after, column := column })

end NodeDecl.Data.Yaml
