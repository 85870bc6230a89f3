import NodeDecl.Diff.Edit

/-! # Hunks

Neighbouring deletions and insertions join into one change, neighbouring kept runs into one
stretch. Changes are grouped with up to three kept lines around them; a longer stretch between
two changes ends one hunk and starts the next.
-/

namespace NodeDecl.Diff

/-- Kept lines, or old lines that are replaced by new ones. -/
structure Block where
  kept : Bool
  old : Nat
  oldLength : Nat
  new : Nat
  newLength : Nat
deriving DecidableEq, Inhabited

namespace Block

def oldEnd (b : Block) : Nat := b.old + b.oldLength

def newEnd (b : Block) : Nat := b.new + b.newLength

/-- The changes of a stretch of deletions and insertions: all deleted lines, then all inserted
ones. The old position is that of the first deletion, the new one that of the first insertion. -/
def ofChanges (edits : List Edit) : List Block :=
  let deletions := edits.filter fun e => e.kind = .delete
  let insertions := edits.filter fun e => e.kind = .insert
  match deletions, insertions with
  | d :: _, i :: _ => [⟨false, d.old, span deletions, i.new, span insertions⟩]
  | d :: _, [] => [⟨false, d.old, span deletions, d.new, 0⟩]
  | [], i :: _ => [⟨false, i.old, 0, i.new, span insertions⟩]
  | [], [] => []

/-- The kept block of a stretch of kept runs. -/
def ofKept (edits : List Edit) : List Block :=
  match edits with
  | [] => []
  | e :: _ => [⟨true, e.old, span edits, e.new, span edits⟩]

end Block

/-- The stretches of runs that are all kept or all changed. -/
def stretches (edits : List Edit) : List (List Edit) :=
  edits.splitBy fun a b => (a.kind == .keep) == (b.kind == .keep)

/-- The blocks of a script. -/
def blocks (edits : List Edit) : List Block :=
  (stretches edits).flatMap fun stretch =>
    match stretch with
    | [] => []
    | e :: _ => if e.kind = .keep then Block.ofKept stretch else Block.ofChanges stretch

/-- The number of kept lines around a change. -/
def context : Nat := 3

namespace Block

/-- The last `n` lines of a kept block. -/
def lastLines (n : Nat) (b : Block) : Block :=
  let skipped := b.oldLength - n
  ⟨b.kept, b.old + skipped, b.oldLength - skipped, b.new + skipped, b.newLength - skipped⟩

/-- The first `n` lines of a kept block. -/
def firstLines (n : Nat) (b : Block) : Block :=
  { b with oldLength := min b.oldLength n, newLength := min b.newLength n }

end Block

def trimFirst : List Block → List Block
  | [] => []
  | b :: rest => (if b.kept then b.lastLines context else b) :: rest

def trimLast : List Block → List Block
  | [] => []
  | [b] => [if b.kept then b.firstLines context else b]
  | b :: rest => b :: trimLast rest

/-- A hunk is a nonempty list of blocks. -/
abbrev Hunk := List Block

/-- The hunks of the blocks, with those of the open hunk before them. -/
def groupFrom (pending : List Block) : List Block → List Hunk
  | [] => match pending with
    | [] => []
    | [b] => if b.kept then [] else [[b]]
    | _ => [pending]
  | b :: rest =>
    if b.kept ∧ 2 * context < b.oldLength then
      (pending ++ [b.firstLines context]) :: groupFrom [b.lastLines context] rest
    else groupFrom (pending ++ [b]) rest

def hunks (bs : List Block) : List Hunk := groupFrom [] (trimLast (trimFirst bs))

end NodeDecl.Diff
