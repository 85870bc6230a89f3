import NodeDecl.Diff.Edit

/-! # Applying patches

A patch is read into hunks, each with its two ranges and its marked lines, and applied to the
lines of the old text at the ranges that the hunks state. It fails where a kept or deleted line
is not the old line at its place, or where a range does not count the lines of its hunk or does
not begin where they stand.
-/

namespace NodeDecl.Diff

/-- A range of lines as a heading states it. -/
structure Range where
  start : Nat
  length : Nat
deriving DecidableEq

/-- The number of lines before the range. -/
def Range.before (r : Range) : Nat := if r.length = 0 then r.start else r.start - 1

/-- A hunk as a patch states it. -/
structure Change where
  old : Range
  new : Range
  lines : List (Kind × Line)
deriving DecidableEq

/-- The value of decimal digits. -/
def valueOfDigits (digits : List Char) : Nat :=
  digits.foldl (fun n c => 10 * n + (c.toNat - 48)) 0

/-- Reads a number. -/
def readNumber (cs : List Char) : Option (Nat × List Char) :=
  let digits := cs.takeWhile Char.isDigit
  if digits = [] then none else some (valueOfDigits digits, cs.dropWhile Char.isDigit)

/-- Reads a range. -/
def readRange (cs : List Char) : Option (Range × List Char) :=
  match readNumber cs with
  | none => none
  | some (start, ',' :: rest) => (readNumber rest).map fun p => (⟨start, p.1⟩, p.2)
  | some (start, rest) => some (⟨start, 1⟩, rest)

/-- Reads the ranges of a heading. -/
def readHeading : Line → Option (Range × Range)
  | '@' :: '@' :: ' ' :: '-' :: cs => match readRange cs with
    | some (old, ' ' :: '+' :: cs) => match readRange cs with
      | some (new, [' ', '@', '@', '\n']) => some (old, new)
      | _ => none
    | _ => none
  | _ => none

/-- The kind of line that a mark stands for. -/
def Kind.ofMark? : Char → Option Kind
  | ' ' => some .keep
  | '-' => some .delete
  | '+' => some .insert
  | _ => none

/-- The note that the line before it has no end. -/
def noEndNote : Line := "\\ No newline at end of file\n".toList

/-- The lines of a patch without the notes, each of which takes the end from the line before. -/
def withoutNotes : List Line → List Line
  | [] => []
  | [line] => [line]
  | line :: next :: rest =>
    if next = noEndNote then line.dropLast :: withoutNotes rest
    else line :: withoutNotes (next :: rest)

/-- Reads the marked lines of a hunk, and the lines after it. -/
def readMarked : List Line → List (Kind × Line) × List Line
  | (mark :: line) :: rest => match Kind.ofMark? mark with
    | none => ([], (mark :: line) :: rest)
    | some kind =>
      let p := readMarked rest
      ((kind, line) :: p.1, p.2)
  | rest => ([], rest)

/-- Reads the hunks of a patch. -/
def readChanges (lines : List Line) : Option (List Change) :=
  match lines with
  | [] => some []
  | heading :: rest => match readHeading heading, readMarked rest with
    | some (old, new), (marked, tail) =>
      if tail.length ≤ rest.length then (readChanges tail).map (⟨old, new, marked⟩ :: ·) else none
    | none, _ => none
termination_by lines.length
decreasing_by exact Nat.lt_succ_of_le (by assumption)

/-- The lines that marked lines keep or insert, and the old lines that they do not reach. -/
def replay : List (Kind × Line) → List Line → Option (List Line × List Line)
  | [], rest => some ([], rest)
  | (.insert, line) :: marked, rest => (replay marked rest).map fun p => (line :: p.1, p.2)
  | (kind, line) :: marked, old :: rest =>
    if old = line then
      (replay marked rest).map fun p => (if kind = .keep then line :: p.1 else p.1, p.2)
    else none
  | _ :: _, [] => none

def Change.counts (c : Change) : Bool :=
  (c.lines.countP fun p => p.1 ≠ .insert) = c.old.length ∧
    (c.lines.countP fun p => p.1 ≠ .delete) = c.new.length

/-- Applies changes to the old lines from `oldAt` on, whose new lines stand from `newAt` on. -/
def applyChanges (oldAt newAt : Nat) (rest : List Line) : List Change → Option (List Line)
  | [] => some rest
  | c :: cs =>
    let skipped := c.old.before - oldAt
    if oldAt ≤ c.old.before ∧ skipped ≤ rest.length ∧ c.new.before = newAt + skipped ∧ c.counts then
      match replay c.lines (rest.drop skipped) with
      | none => none
      | some (made, tail) =>
        (applyChanges (c.old.before + c.old.length) (c.new.before + c.new.length) tail cs).map
          (rest.take skipped ++ made ++ ·)
    else none

/-- The changes that a patch states. The label is that of the patch. -/
def readPatch (label patch : String) : Option (List Change) :=
  let head := ("--- " ++ label ++ "\n+++ generated\n").toList
  if head.isPrefixOf patch.toList then
    readChanges (withoutNotes (splitLines (patch.toList.drop head.length)))
  else none

/-- The text that a patch makes of an old one. -/
def applyPatch (label old patch : String) : Option String :=
  match readPatch label patch with
  | none => none
  | some cs => (applyChanges 0 0 (splitLines old.toList) cs).map fun lines => .ofList lines.flatten

end NodeDecl.Diff
