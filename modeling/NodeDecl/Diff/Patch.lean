import NodeDecl.Diff.Compaction
import NodeDecl.Diff.Hunk
import NodeDecl.Diff.Script

/-! # Patches

A patch shows the difference of two texts in unified form. A hunk begins with its ranges in the
old and in the new text; then come its lines, each after a space if it is kept, a minus if it is
deleted or a plus if it is inserted. Equal texts have an empty patch.
-/

namespace NodeDecl.Diff

/-- The lines from a position on. -/
def slice (lines : Array Line) (start length : Nat) : List Line :=
  (lines.extract start (start + length)).toList

/-- A line of a patch. A line without an end gets one, and a note that it had none. -/
def patchLine (mark : Char) (line : Line) : List Char :=
  mark :: line ++ if isEnded line then [] else "\n\\ No newline at end of file\n".toList

def Block.text (old new : Array Line) (b : Block) : List Char :=
  if b.kept then (slice old b.old b.oldLength).flatMap (patchLine ' ')
  else (slice old b.old b.oldLength).flatMap (patchLine '-') ++
    (slice new b.new b.newLength).flatMap (patchLine '+')

/-- A range of lines, counted from one. A range of one line shows no length, an empty range
shows the line before it. -/
def rangeText (start stop : Nat) : String :=
  if stop - start = 1 then toString (start + 1)
  else if stop - start = 0 then toString start ++ ",0"
  else toString (start + 1) ++ "," ++ toString (stop - start)

def Hunk.heading (h : Hunk) : String :=
  match h.head?, h.getLast? with
  | some first, some last =>
    "@@ -" ++ rangeText first.old last.oldEnd ++ " +" ++ rangeText first.new last.newEnd ++
      " @@\n"
  | _, _ => ""

def Hunk.text (old new : Array Line) (h : Hunk) : List Char :=
  if h.all fun b => b.oldLength + b.newLength = 0 then []
  else (Hunk.heading h).toList ++ h.flatMap (Block.text old new)

/-- The hunks between two lists of lines. -/
def hunksBetween (old new : Array Line) : List Hunk :=
  hunks (blocks (compact old new (script old new)))

/-- The patch from the old text, shown under a label, to the new one. -/
def patch (label : String) (old new : String) : String :=
  let oldLines := (splitLines old.toList).toArray
  let newLines := (splitLines new.toList).toArray
  match hunksBetween oldLines newLines with
  | [] => ""
  | hs => .ofList (("--- " ++ label ++ "\n+++ generated\n").toList ++
      hs.flatMap (Hunk.text oldLines newLines))

end NodeDecl.Diff
