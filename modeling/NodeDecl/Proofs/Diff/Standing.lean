import NodeDecl.Diff.Edit

/-! # Where the runs of a script stand

A script leads through two texts if each of its runs stands where the run before it ends. A kept
run states its place in both texts. A deletion has to state its place in the old text alone and an
insertion in the new text alone: the other place may be wrong.
-/

namespace NodeDecl.Diff

variable {old new : Array Line}

/-- The `n` lines of the old text from `i` on are those of the new text from `j` on. -/
def SameLines (old new : Array Line) (i j n : Nat) : Prop := ∀ k < n, old[i + k]? = new[j + k]?

theorem SameLines.add {i j m n : Nat} (hm : SameLines old new i j m)
    (hn : SameLines old new (i + m) (j + m) n) : SameLines old new i j (m + n) := by
  intro k hk
  by_cases h : k < m
  · exact hm k h
  · have he := hn (k - m) (by omega)
    rwa [show i + m + (k - m) = i + k by omega, show j + m + (k - m) = j + k by omega] at he

theorem SameLines.take {i j m n : Nat} (h : SameLines old new i j n) (hm : m ≤ n) :
    SameLines old new i j m :=
  fun k hk => h k (by omega)

theorem SameLines.drop {i j n : Nat} (h : SameLines old new i j n) (m : Nat) :
    SameLines old new (i + m) (j + m) (n - m) := by
  intro k hk
  have he := h (m + k) (by omega)
  rwa [← Nat.add_assoc, ← Nat.add_assoc] at he

theorem commonForward_le (a b : Array Line) (i j limit : Nat) :
    commonForward a b i j limit ≤ limit := by
  induction limit generalizing i j with
  | zero => exact Nat.le_refl 0
  | succ limit ih =>
    rw [commonForward]
    split
    · exact Nat.succ_le_succ (ih _ _)
    · exact Nat.zero_le _

theorem sameLines_commonForward (i j limit : Nat) :
    SameLines old new i j (commonForward old new i j limit) := by
  induction limit generalizing i j with
  | zero => exact fun k hk => absurd hk (Nat.not_lt_zero k)
  | succ limit ih =>
    rw [commonForward]
    split
    · next he =>
      rw [Nat.add_comm]
      refine SameLines.add (fun k hk => ?_) (ih _ _)
      rw [show k = 0 by omega]
      exact he
    · exact fun k hk => absurd hk (Nat.not_lt_zero k)

theorem commonBackward_le (a b : Array Line) (i j limit : Nat) :
    commonBackward a b i j limit ≤ limit := by
  induction limit generalizing i j with
  | zero => exact Nat.le_refl 0
  | succ limit ih =>
    rw [commonBackward]
    split
    · exact Nat.succ_le_succ (ih _ _)
    · exact Nat.zero_le _

theorem sameLines_commonBackward {i j limit : Nat} (hi : limit ≤ i) (hj : limit ≤ j) :
    SameLines old new (i - commonBackward old new i j limit)
      (j - commonBackward old new i j limit) (commonBackward old new i j limit) := by
  induction limit generalizing i j with
  | zero => exact fun k hk => absurd hk (Nat.not_lt_zero k)
  | succ limit ih =>
    rw [commonBackward]
    split
    · next he =>
      have hle := commonBackward_le old new (i - 1) (j - 1) limit
      have hs := ih (i := i - 1) (j := j - 1) (by omega) (by omega)
      generalize commonBackward old new (i - 1) (j - 1) limit = n at hle hs
      rw [show i - (n + 1) = i - 1 - n by omega, show j - (n + 1) = j - 1 - n by omega]
      refine SameLines.add hs (fun k hk => ?_)
      rw [show i - 1 - n + n + k = i - 1 by omega, show j - 1 - n + n + k = j - 1 by omega]
      exact he
    · exact fun k hk => absurd hk (Nat.not_lt_zero k)

/-- What takes up lines of both texts, and when it stands at a line of each. -/
class Stretch (α : Type) where
  oldLength : α → Nat
  newLength : α → Nat
  Stands : Array Line → Array Line → Nat → Nat → α → Prop

section Stretch

variable {α : Type} [Stretch α] {i j i' j' : Nat}

/-- The stretches lead from line `i` of the old text and line `j` of the new one to `i'` and
`j'`: each stands where the one before it ends. -/
def Reaches (old new : Array Line) : Nat → Nat → List α → Nat → Nat → Prop
  | i, j, [], i', j' => i = i' ∧ j = j'
  | i, j, e :: es, i', j' => Stretch.Stands old new i j e ∧
      Reaches old new (i + Stretch.oldLength e) (j + Stretch.newLength e) es i' j'

@[simp]
theorem reaches_nil : Reaches old new i j ([] : List α) i' j' ↔ i = i' ∧ j = j' :=
  Iff.rfl

theorem reaches_cons {e : α} {es : List α} :
    Reaches old new i j (e :: es) i' j' ↔ Stretch.Stands old new i j e ∧
      Reaches old new (i + Stretch.oldLength e) (j + Stretch.newLength e) es i' j' :=
  Iff.rfl

theorem reaches_append {es fs : List α} :
    Reaches old new i j (es ++ fs) i' j' ↔
      ∃ p q, Reaches old new i j es p q ∧ Reaches old new p q fs i' j' := by
  induction es generalizing i j with
  | nil =>
    constructor
    · exact fun h => ⟨i, j, ⟨rfl, rfl⟩, h⟩
    · rintro ⟨_, _, ⟨rfl, rfl⟩, h⟩
      exact h
  | cons e es ih => simp only [List.cons_append, reaches_cons, ih, and_assoc, exists_and_left]

theorem Reaches.le {es : List α} (h : Reaches old new i j es i' j') : i ≤ i' ∧ j ≤ j' := by
  induction es generalizing i j with
  | nil => exact ⟨Nat.le_of_eq h.1, Nat.le_of_eq h.2⟩
  | cons e es ih =>
    obtain ⟨hi, hj⟩ := ih h.2
    exact ⟨Nat.le_of_add_right_le hi, Nat.le_of_add_right_le hj⟩

theorem Reaches.replaceEnd {before es fs : List α} (h : Reaches old new i j (before ++ es) i' j')
    (hr : ∀ {p q}, Reaches old new p q es i' j' → Reaches old new p q fs i' j') :
    Reaches old new i j (before ++ fs) i' j' := by
  obtain ⟨p, q, hb, he⟩ := reaches_append.mp h
  exact reaches_append.mpr ⟨p, q, hb, hr he⟩

/-- Stretches may be replaced by others that lead between the same lines. -/
theorem Reaches.replace {before es fs after : List α}
    (h : Reaches old new i j (before ++ es ++ after) i' j')
    (hr : ∀ {p q p' q'}, Reaches old new p q es p' q' → Reaches old new p q fs p' q') :
    Reaches old new i j (before ++ fs ++ after) i' j' := by
  obtain ⟨p, q, h, hafter⟩ := reaches_append.mp h
  obtain ⟨a, b, hbefore, h⟩ := reaches_append.mp h
  exact reaches_append.mpr ⟨p, q, reaches_append.mpr ⟨a, b, hbefore, hr h⟩, hafter⟩

end Stretch

/-- The run has lines and stands at line `i` of the old text and line `j` of the new one. -/
def Edit.Stands (old new : Array Line) (i j : Nat) (e : Edit) : Prop :=
  0 < e.length ∧ match e.kind with
    | .keep => e.old = i ∧ e.new = j ∧ SameLines old new i j e.length
    | .delete => e.old = i
    | .insert => e.new = j

instance : Stretch Edit := ⟨Edit.oldLength, Edit.newLength, Edit.Stands⟩

@[simp]
theorem Edit.oldEnd_keep (a b n : Nat) : (⟨.keep, a, b, n⟩ : Edit).oldEnd = a + n := rfl

@[simp]
theorem Edit.newEnd_insert (a b n : Nat) : (⟨.insert, a, b, n⟩ : Edit).newEnd = b + n := rfl

section Run

variable {i j i' j' a b n : Nat} {es : List Edit}

@[simp]
theorem reaches_keep_cons :
    Reaches old new i j (⟨.keep, a, b, n⟩ :: es) i' j' ↔
      (0 < n ∧ a = i ∧ b = j ∧ SameLines old new i j n) ∧
        Reaches old new (i + n) (j + n) es i' j' :=
  Iff.rfl

@[simp]
theorem reaches_delete_cons :
    Reaches old new i j (⟨.delete, a, b, n⟩ :: es) i' j' ↔
      (0 < n ∧ a = i) ∧ Reaches old new (i + n) j es i' j' :=
  Iff.rfl

@[simp]
theorem reaches_insert_cons :
    Reaches old new i j (⟨.insert, a, b, n⟩ :: es) i' j' ↔
      (0 < n ∧ b = j) ∧ Reaches old new i (j + n) es i' j' :=
  Iff.rfl

end Run

end NodeDecl.Diff
