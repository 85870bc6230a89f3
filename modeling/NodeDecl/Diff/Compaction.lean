import NodeDecl.Diff.Edit

/-! # Compaction

A deletion or insertion can often stand at several places: between equal lines it slides up and
down, past a run of the other kind it swaps, and it merges with one of its own kind. Compaction
slides each run up as far as it goes and then down. Runs that are passed keep the positions
that they had.
-/

namespace NodeDecl.Diff

/-- A run in its script: what stands before it, nearest first, and what stands after it. -/
structure Cursor where
  before : List Edit
  current : Edit
  after : List Edit

/-- How many lines at the end of a kept run `prev` are also the last new lines of `e`. -/
def slideUp (old new : Array Line) (prev e : Edit) : Nat :=
  commonBackward old new prev.oldEnd e.newEnd (min prev.length e.newLength)

/-- How many lines at the start of a kept run `next` are also the first new lines of `e`. -/
def slideDown (old new : Array Line) (next e : Edit) : Nat :=
  commonForward old new next.old e.new (min next.length e.newLength)

/-- The runs after one that moved up by `n` lines past the kept run `prev`. -/
def keepBelow (prev e : Edit) (n : Nat) : List Edit → List Edit
  | next :: rest =>
    if next.kind = .keep then (next.moveUp n).lengthen n :: rest
    else ⟨.keep, prev.oldEnd - n, e.newEnd - n, n⟩ :: next :: rest
  | [] => [⟨.keep, prev.oldEnd - n, e.newEnd - n, n⟩]

/-- The runs before one that moved down by `n` lines past the kept run `next`. -/
def keepAbove (next e : Edit) (n : Nat) : List Edit → List Edit
  | prev :: rest =>
    if prev.kind = .keep then prev.lengthen n :: rest
    else ⟨.keep, next.old, e.new, n⟩ :: prev :: rest
  | [] => [⟨.keep, next.old, e.new, n⟩]

/-- The lines and the runs together: less of either is left with each run that is passed. -/
def weight (edits : List Edit) : Nat := span edits + edits.length

/-- Slides a run up as far as it goes. -/
def slideRunUp (old new : Array Line) : List Edit → Edit → List Edit → Cursor
  | [], e, after => ⟨[], e, after⟩
  | prev :: before, e, after =>
    if prev.kind = .keep then
      let n := slideUp old new prev e
      if 0 < n ∧ 0 < prev.length then
        let rest := prev.shorten n
        slideRunUp old new (if rest.length = 0 then before else rest :: before) (e.moveUp n)
          (keepBelow prev e n after)
      else if prev.length = 0 then slideRunUp old new before e after
      else ⟨prev :: before, e, after⟩
    else if prev.kind = e.kind then slideRunUp old new before (prev.lengthen e.length) after
    else slideRunUp old new before e (prev :: after)
termination_by before => weight before
decreasing_by
  · split <;> simp only [weight, span, Edit.shorten, List.length_cons] <;> omega
  all_goals
    simp only [weight, span, List.length_cons]
    omega

/-- Slides a run down as far as it goes. -/
def slideRunDown (old new : Array Line) : List Edit → Edit → List Edit → Cursor
  | before, e, [] => ⟨before, e, []⟩
  | before, e, next :: after =>
    if next.kind = .keep then
      let n := slideDown old new next e
      if 0 < n ∧ 0 < next.length then
        let rest := (next.moveDown n).shorten n
        slideRunDown old new (keepAbove next e n before) (e.moveDown n)
          (if rest.length = 0 then after else rest :: after)
      else if next.length = 0 then slideRunDown old new before e after
      else ⟨before, e, next :: after⟩
    else if next.kind = e.kind then slideRunDown old new before (e.lengthen next.length) after
    else slideRunDown old new (next :: before) e after
termination_by _ _ after => weight after
decreasing_by
  · split <;>
      simp only [weight, span, Edit.shorten, Edit.moveDown, List.length_cons] <;> omega
  all_goals
    simp only [weight, span, List.length_cons]
    omega

/-- Slides every run of a kind, from the first to the last, visiting at most `count` runs. -/
def compactFrom (old new : Array Line) (kind : Kind) :
    Nat → List Edit → List Edit → List Edit
  | 0, before, after => before.reverse ++ after
  | _, before, [] => before.reverse
  | count + 1, before, e :: after =>
    if e.kind = kind then
      let high := slideRunUp old new before e after
      let c := slideRunDown old new high.before high.current high.after
      compactFrom old new kind count (c.current :: c.before) c.after
    else compactFrom old new kind count (e :: before) after

/-- A bound on the runs that compaction visits. -/
def compactionBound (old new : Array Line) (edits : List Edit) : Nat :=
  (edits.length + 1) * (old.size + new.size + edits.length + 1)

/-- Slides the deletions, then the insertions. -/
def compact (old new : Array Line) (edits : List Edit) : List Edit :=
  let deletions := compactFrom old new .delete (compactionBound old new edits) [] edits
  compactFrom old new .insert (compactionBound old new deletions) [] deletions

end NodeDecl.Diff
