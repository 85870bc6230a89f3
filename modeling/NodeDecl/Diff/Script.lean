import NodeDecl.Diff.Edit
import NodeDecl.Diff.Frontier

/-! # Edit scripts

A window is compared by taking off what its two texts have in common at both ends. If both
texts have lines left, the window is split and its two parts are compared in turn; where no
split is found, the old lines are deleted and the new ones inserted.
-/

namespace NodeDecl.Diff

/-- The lines that both texts of the window begin with. -/
def Window.head (w : Window) (old new : Array Line) : Nat :=
  commonForward old new w.oldStart w.newStart (min w.oldSize w.newSize)

/-- The lines that both texts of the window end with. -/
def Window.tail (w : Window) (old new : Array Line) : Nat :=
  commonBackward old new w.oldEnd w.newEnd (min w.oldSize w.newSize)

def Window.dropHead (w : Window) (n : Nat) : Window :=
  { w with oldStart := w.oldStart + n, newStart := w.newStart + n }

def Window.dropTail (w : Window) (n : Nat) : Window :=
  { w with oldEnd := w.oldEnd - n, newEnd := w.newEnd - n }

/-- A point divides the window if both parts are smaller than the window. -/
def Window.Divides (w : Window) (p : Nat × Nat) : Prop :=
  w.oldStart ≤ p.1 ∧ p.1 ≤ w.oldEnd ∧ w.newStart ≤ p.2 ∧ p.2 ≤ w.newEnd ∧
    w.oldStart + w.newStart < p.1 + p.2 ∧ p.1 + p.2 < w.oldEnd + w.newEnd

instance (w : Window) (p : Nat × Nat) : Decidable (w.Divides p) := by
  unfold Window.Divides; infer_instance

def Window.size (w : Window) : Nat := w.oldSize + w.newSize

/-- The part of the window before a point. -/
def Window.upTo (w : Window) (p : Nat × Nat) : Window := { w with oldEnd := p.1, newEnd := p.2 }

/-- The part of the window after a point. -/
def Window.onFrom (w : Window) (p : Nat × Nat) : Window :=
  { w with oldStart := p.1, newStart := p.2 }

theorem Window.size_upTo_lt {w : Window} {p : Nat × Nat} (h : w.Divides p) :
    (w.upTo p).size < w.size := by
  obtain ⟨_, _, _, _, _, _⟩ := h
  simp only [size, oldSize, newSize, upTo]
  omega

theorem Window.size_onFrom_lt {w : Window} {p : Nat × Nat} (h : w.Divides p) :
    (w.onFrom p).size < w.size := by
  obtain ⟨_, _, _, _, _, _⟩ := h
  simp only [size, oldSize, newSize, onFrom]
  omega

theorem Window.size_dropHead_le (w : Window) (n : Nat) : (w.dropHead n).size ≤ w.size := by
  simp only [Window.size, Window.oldSize, Window.newSize, Window.dropHead]
  omega

theorem Window.size_dropTail_le (w : Window) (n : Nat) : (w.dropTail n).size ≤ w.size := by
  simp only [Window.size, Window.oldSize, Window.newSize, Window.dropTail]
  omega

/-- The script for a window, and the reach that its searches leave behind. -/
def Window.script (old new : Array Line) (w : Window) (f : Frontier) : Frontier × List Edit :=
  let head := w.head old new
  let body := w.dropHead head
  let tail := body.tail old new
  let middle := body.dropTail tail
  let inner : Frontier × List Edit :=
    if middle.newSize = 0 then
      (f, run .delete middle.oldStart middle.newStart middle.oldSize)
    else if middle.oldSize = 0 then
      (f, run .insert middle.oldStart middle.newStart middle.newSize)
    else match middle.split old new f with
      | (f, some p) =>
        if middle.Divides p then
          let first := Window.script old new (middle.upTo p) f
          let second := Window.script old new (middle.onFrom p) first.1
          (second.1, first.2 ++ second.2)
        else (f, run .delete middle.oldStart middle.newStart middle.oldSize ++
          run .insert middle.oldStart middle.newStart middle.newSize)
      | (f, none) => (f, run .delete middle.oldStart middle.newStart middle.oldSize ++
          run .insert middle.oldStart middle.newStart middle.newSize)
  (inner.1, run .keep w.oldStart w.newStart head ++ inner.2 ++
    run .keep middle.oldEnd middle.newEnd tail)
termination_by w.size
decreasing_by
  · exact Nat.lt_of_lt_of_le (Window.size_upTo_lt (by assumption))
      (Nat.le_trans (Window.size_dropTail_le _ _) (Window.size_dropHead_le _ _))
  · exact Nat.lt_of_lt_of_le (Window.size_onFrom_lt (by assumption))
      (Nat.le_trans (Window.size_dropTail_le _ _) (Window.size_dropHead_le _ _))

/-- The script that turns one list of lines into another. -/
def script (old new : Array Line) : List Edit :=
  let empty := Reach.empty old.size new.size
  (Window.script old new ⟨0, old.size, 0, new.size⟩ ⟨empty, empty⟩).2

end NodeDecl.Diff
