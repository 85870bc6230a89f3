import NodeDecl.Diff.Line

/-! # Searching for a split

Two texts are compared from both ends at once. After `d` steps the search knows for each
diagonal how far it can get with `d` lines deleted or inserted; where the two searches meet, the
texts are split. Reach is kept for both directions over the whole comparison and never reset:
what an earlier search left behind is seen by a later one.
-/

namespace NodeDecl.Diff

/-- How far a search got on each diagonal; diagonal `k` is stored at `k + origin`. -/
structure Reach where
  origin : Nat
  cells : Array Nat

def Reach.get (r : Reach) (k : Int) : Nat := r.cells.getD (k + r.origin).toNat 0

def Reach.set (r : Reach) (k : Int) (x : Nat) : Reach :=
  { r with cells := r.cells.setIfInBounds (k + r.origin).toNat x }

/-- A bound on the number of steps of a search. -/
def stepBound (n m : Nat) : Nat := (n + m + 1) / 2 + 1

def Reach.empty (n m : Nat) : Reach :=
  ⟨stepBound n m, Array.replicate (2 * stepBound n m) 0⟩

/-- The reach of both directions. -/
structure Frontier where
  forward : Reach
  backward : Reach

/-- A part of each text: lines `oldStart` to `oldEnd` and `newStart` to `newEnd`. -/
structure Window where
  oldStart : Nat
  oldEnd : Nat
  newStart : Nat
  newEnd : Nat

def Window.oldSize (w : Window) : Nat := w.oldEnd - w.oldStart

def Window.newSize (w : Window) : Nat := w.newEnd - w.newStart

def Window.delta (w : Window) : Int := w.oldSize - w.newSize

/-- The diagonals of step `d`, from `d` down to `-d`. -/
def diagonals (d : Nat) : List Int := (List.range (d + 1)).map fun i => (d : Int) - 2 * (i : Nat)

/-- Where the search enters diagonal `k` in step `d`: from the diagonal above or the one below. -/
def Reach.enter (r : Reach) (d : Nat) (k : Int) : Nat :=
  if k = -d ∨ (k ≠ d ∧ r.get (k - 1) < r.get (k + 1)) then r.get (k + 1) else r.get (k - 1) + 1

/-- The number of equal lines from a point of the window on. -/
def Window.slideForward (w : Window) (old new : Array Line) (x : Nat) (y : Int) : Nat :=
  if x < w.oldSize ∧ 0 ≤ y ∧ y < w.newSize then
    commonForward old new (w.oldStart + x) (w.newStart + y.toNat)
      (min (w.oldSize - x) (w.newSize - y.toNat))
  else 0

/-- The number of equal lines before a point that is counted from the ends of the window. -/
def Window.slideBackward (w : Window) (old new : Array Line) (x : Nat) (y : Int) : Nat :=
  if x < w.oldSize ∧ 0 ≤ y ∧ y < w.newSize then
    commonBackward old new (w.oldEnd - x) (w.newEnd - y.toNat)
      (min (w.oldSize - x) (w.newSize - y.toNat))
  else 0

/-- Whether diagonal `k` of one direction has a counterpart in the other that the other has
reached in `d` steps. -/
def Window.faces (w : Window) (d : Int) (k : Int) : Bool := (k - w.delta).natAbs ≤ d

/-- One step forward along the given diagonals, until the searches meet. -/
def Window.stepForward (w : Window) (old new : Array Line) (d : Nat) :
    List Int → Frontier → Frontier × Option (Nat × Nat)
  | [], f => (f, none)
  | k :: rest, f =>
    let x := f.forward.enter d k
    let y : Int := x - k
    let reached := x + w.slideForward old new x y
    let f := { f with forward := f.forward.set k reached }
    if w.delta % 2 ≠ 0 ∧ w.faces (d - 1) k ∧
        w.oldSize ≤ reached + f.backward.get (-(k - w.delta)) then
      (f, some (w.oldStart + x, (w.newStart + y).toNat))
    else w.stepForward old new d rest f

/-- One step backward along the given diagonals, until the searches meet. -/
def Window.stepBackward (w : Window) (old new : Array Line) (d : Nat) :
    List Int → Frontier → Frontier × Option (Nat × Nat)
  | [], f => (f, none)
  | k :: rest, f =>
    let x := f.backward.enter d k
    let y : Int := x - k
    let slide := w.slideBackward old new x y
    let f := { f with backward := f.backward.set k (x + slide) }
    if w.delta % 2 = 0 ∧ w.faces d k ∧
        w.oldSize ≤ (x + slide) + f.forward.get (-(k - w.delta)) then
      (f, some (w.oldEnd - (x + slide), (w.newEnd - (y + slide)).toNat))
    else w.stepBackward old new d rest f

/-- Takes steps from step `d` on until the searches meet, and at most `count` of them. -/
def Window.search (w : Window) (old new : Array Line) (d : Nat) :
    Nat → Frontier → Frontier × Option (Nat × Nat)
  | 0, f => (f, none)
  | count + 1, f =>
    match w.stepForward old new d (diagonals d) f with
    | (f, some split) => (f, some split)
    | (f, none) =>
      match w.stepBackward old new d (diagonals d) f with
      | (f, some split) => (f, some split)
      | (f, none) => w.search old new (d + 1) count f

/-- The point at which to split the window. -/
def Window.split (w : Window) (old new : Array Line) (f : Frontier) :
    Frontier × Option (Nat × Nat) :=
  let f := { forward := f.forward.set 1 0, backward := f.backward.set 1 0 }
  w.search old new 0 (stepBound w.oldSize w.newSize) f

end NodeDecl.Diff
