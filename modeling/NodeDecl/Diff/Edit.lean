import NodeDecl.Diff.Line

/-! # Edits

An edit script is a list of runs of lines: kept, deleted from the old text, or inserted from the
new one. Each run has a position in both texts.
-/

namespace NodeDecl.Diff

inductive Kind where
  | keep
  | delete
  | insert
deriving DecidableEq, Inhabited

/-- A run of `length` lines of one kind. -/
structure Edit where
  kind : Kind
  old : Nat
  new : Nat
  length : Nat
deriving DecidableEq, Inhabited

namespace Edit

/-- How many lines of the old text the run covers. -/
def oldLength (e : Edit) : Nat := if e.kind = .insert then 0 else e.length

/-- How many lines of the new text the run covers. -/
def newLength (e : Edit) : Nat := if e.kind = .delete then 0 else e.length

def oldEnd (e : Edit) : Nat := e.old + e.oldLength

def newEnd (e : Edit) : Nat := e.new + e.newLength

def moveUp (e : Edit) (n : Nat) : Edit := { e with old := e.old - n, new := e.new - n }

def moveDown (e : Edit) (n : Nat) : Edit := { e with old := e.old + n, new := e.new + n }

def lengthen (e : Edit) (n : Nat) : Edit := { e with length := e.length + n }

def shorten (e : Edit) (n : Nat) : Edit := { e with length := e.length - n }

end Edit

/-- How many lines the runs span. -/
def span : List Edit → Nat
  | [] => 0
  | e :: rest => e.length + span rest

/-- The runs of a script, an empty one left out. -/
def run (kind : Kind) (old new length : Nat) : List Edit :=
  if length = 0 then [] else [⟨kind, old, new, length⟩]

end NodeDecl.Diff
