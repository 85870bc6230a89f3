/-! # Lines of a text

A line ends with a line feed, with a carriage return and a line feed, or with a carriage return
alone. The end belongs to the line, so the lines of a text make up the text again.
-/

namespace NodeDecl.Diff

abbrev Line := List Char

/-- The lines of a text. The last one may have no end; an empty text has no lines. -/
def splitLines : List Char → List Line
  | [] => []
  | '\r' :: '\n' :: rest => ['\r', '\n'] :: splitLines rest
  | c :: rest =>
    if c = '\n' ∨ c = '\r' then [c] :: splitLines rest
    else match splitLines rest with
      | [] => [[c]]
      | line :: lines => (c :: line) :: lines

/-- Whether a line has an end. -/
def isEnded (line : Line) : Bool :=
  match line.getLast? with
  | some c => c == '\n' || c == '\r'
  | none => false

/-- How many lines of `a` from `i` on are the lines of `b` from `j` on, up to a limit. -/
def commonForward (a b : Array Line) (i j : Nat) : Nat → Nat
  | 0 => 0
  | limit + 1 => if a[i]? = b[j]? then commonForward a b (i + 1) (j + 1) limit + 1 else 0

/-- How many lines of `a` before `i` are the lines of `b` before `j`, up to a limit. -/
def commonBackward (a b : Array Line) (i j : Nat) : Nat → Nat
  | 0 => 0
  | limit + 1 =>
    if a[i - 1]? = b[j - 1]? then commonBackward a b (i - 1) (j - 1) limit + 1 else 0

end NodeDecl.Diff
