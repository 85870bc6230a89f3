import NodeDecl.Data.Value

/-! # Places in a YAML text

How far a line is indented decides what it belongs to, so a place in a text knows its column. A
gap between two tokens is made of blanks, line ends and comments. Values that have got a name are
kept with the place, because later places can refer to them.
-/

namespace NodeDecl.Data.Yaml

structure Place where
  rest : List Char
  column : Nat
  named : List (String × Value)

def isBreak (c : Char) : Bool := c == '\n' || c == '\r'

def isSpace (c : Char) : Bool := c == ' ' || c == '\t'

/-- Whether a token is over: at a blank, a line end, or the end of the text. -/
def isOver (cs : List Char) : Bool := cs.head?.all fun c => isSpace c || isBreak c

def isFlowMark (c : Char) : Bool := c == ',' || c == '[' || c == ']' || c == '\x7b' || c == '\x7d'

/-- Drops a line end. -/
def dropBreak : List Char → List Char
  | '\r' :: '\n' :: rest => rest
  | _ :: rest => rest
  | [] => []

/-- Whether a line begins with three hyphens or three dots, which end a document. -/
def isMarker (cs : List Char) : Bool :=
  (['-', '-', '-'].isPrefixOf cs || ['.', '.', '.'].isPrefixOf cs) && isOver (cs.drop 3)

namespace Place

/-- Goes on within a line, to a rest of the text. -/
def goTo (p : Place) (rest : List Char) : Place :=
  { p with rest := rest, column := p.column + (p.rest.length - rest.length) }

/-- Whether a document ends here. -/
def isEnd (p : Place) : Bool := p.rest.isEmpty || p.column == 0 && isMarker p.rest

/-- Whether a mark stands here that begins an entry. -/
def isEntry (mark : Char) (p : Place) : Bool :=
  match p.rest with
  | c :: rest => c == mark && isOver rest
  | [] => false

end Place

/-- The place after a gap: what is left, its column, and whether a line ended before it. -/
structure Landing where
  rest : List Char
  column : Nat
  crossed : Bool

/-- Skips a gap. Tabs are skipped on the line where the gap begins, or everywhere. -/
def skipGap (tabs everywhere comment crossed : Bool) (column : Nat) : List Char → Landing
  | [] => ⟨[], column, crossed⟩
  | c :: rest =>
    if isBreak c then skipGap tabs everywhere false true 0 rest
    else if comment then skipGap tabs everywhere true crossed (column + 1) rest
    else if c = ' ' ∨ c = '\t' ∧ (everywhere ∨ tabs ∧ !crossed) then
      skipGap tabs everywhere false crossed (column + 1) rest
    else if c = '#' then skipGap tabs everywhere true crossed (column + 1) rest
    else ⟨c :: rest, column, crossed⟩

namespace Place

def land (p : Place) (l : Landing) : Place := { p with rest := l.rest, column := l.column }

/-- Skips a gap in a block, and tells whether a line ended in it. -/
def blockGap (tabs : Bool) (p : Place) : Place × Bool :=
  let l := skipGap tabs false false false p.column p.rest
  (p.land l, l.crossed)

/-- Skips a gap between brackets. -/
def flowGap (p : Place) : Place := p.land (skipGap true true false false p.column p.rest)

end Place

end NodeDecl.Data.Yaml
