import Mathlib.Data.List.SplitBy
import NodeDecl.Diff.Hunk
import NodeDecl.Proofs.Diff.Standing

/-! # Blocks lead where their runs lead

A stretch of runs that are all kept or all changed makes one block, which leads between the same
lines. The positions of a block are as good as those of its runs: a block without deleted lines
may state a wrong place in the old text, and one without inserted lines a wrong place in the new
text. Kept and changed blocks alternate.
-/

namespace NodeDecl.Diff

variable {old new : Array Line} {i j i' j' : Nat}

/-- The block has lines and stands at line `i` of the old text and line `j` of the new one. -/
def Block.Stands (old new : Array Line) (i j : Nat) (b : Block) : Prop :=
  0 < b.oldLength + b.newLength ∧ (0 < b.oldLength → b.old = i) ∧ (0 < b.newLength → b.new = j) ∧
    (b.kept = true → b.newLength = b.oldLength ∧ SameLines old new i j b.oldLength)

instance : Stretch Block := ⟨Block.oldLength, Block.newLength, Block.Stands⟩

theorem reaches_block_cons {b : Block} {bs : List Block} :
    Reaches old new i j (b :: bs) i' j' ↔ b.Stands old new i j ∧
      Reaches old new (i + b.oldLength) (j + b.newLength) bs i' j' :=
  Iff.rfl

theorem Reaches.kept {es : List Edit} (hk : ∀ e ∈ es, e.kind = .keep)
    (h : Reaches old new i j es i' j') :
    i + span es = i' ∧ j + span es = j' ∧ SameLines old new i j (span es) := by
  induction es generalizing i j with
  | nil => exact ⟨h.1, h.2, fun k hk => absurd hk (Nat.not_lt_zero k)⟩
  | cons e es ih =>
    obtain ⟨kind, a, b, n⟩ := e
    cases hk _ List.mem_cons_self
    obtain ⟨⟨hn, rfl, rfl, hs⟩, h⟩ := h
    obtain ⟨hi, hj, hs'⟩ := ih (fun e he => hk e (List.mem_cons_of_mem _ he)) h
    exact ⟨by rw [span, ← Nat.add_assoc]; exact hi, by rw [span, ← Nat.add_assoc]; exact hj,
      hs.add hs'⟩

theorem Reaches.ofKept {es : List Edit} (hne : es ≠ []) (hk : ∀ e ∈ es, e.kind = .keep)
    (h : Reaches old new i j es i' j') :
    ∃ b, Block.ofKept es = [b] ∧ b.kept = true ∧ Reaches old new i j [b] i' j' := by
  obtain ⟨hi, hj, hs⟩ := h.kept hk
  cases es with
  | nil => exact absurd rfl hne
  | cons e es =>
    obtain ⟨kind, a, b, n⟩ := e
    cases hk _ List.mem_cons_self
    obtain ⟨⟨hn, rfl, rfl, -⟩, -⟩ := h
    refine ⟨_, rfl, rfl, ⟨?_, fun _ => rfl, fun _ => rfl, fun _ => ⟨rfl, hs⟩⟩, hi, hj⟩
    exact Nat.add_pos_left (Nat.add_pos_left hn _) _

/-- The runs of one kind. -/
abbrev ofKind (kind : Kind) (es : List Edit) : List Edit := es.filter fun e => e.kind = kind

theorem Reaches.changed {es : List Edit} (hk : ∀ e ∈ es, e.kind ≠ .keep)
    (h : Reaches old new i j es i' j') :
    i + span (ofKind .delete es) = i' ∧ j + span (ofKind .insert es) = j' := by
  induction es generalizing i j with
  | nil => exact h
  | cons e es ih =>
    obtain ⟨kind, a, b, n⟩ := e
    have hk' : ∀ e ∈ es, e.kind ≠ .keep := fun e he => hk e (List.mem_cons_of_mem _ he)
    cases kind with
    | keep => exact absurd rfl (hk _ List.mem_cons_self)
    | delete =>
      obtain ⟨hi, hj⟩ := ih hk' h.2
      exact ⟨by rw [← hi]; exact (Nat.add_assoc ..).symm, hj⟩
    | insert =>
      obtain ⟨hi, hj⟩ := ih hk' h.2
      exact ⟨hi, by rw [← hj]; exact (Nat.add_assoc ..).symm⟩

theorem Reaches.first {es rest : List Edit} {kind : Kind} {e : Edit}
    (hk : ∀ e ∈ es, e.kind ≠ .keep) (h : Reaches old new i j es i' j')
    (he : ofKind kind es = e :: rest) :
    0 < e.length ∧ (kind = .delete → e.old = i) ∧ (kind = .insert → e.new = j) := by
  induction es generalizing i j with
  | nil => cases he
  | cons x es ih =>
    obtain ⟨kind', a, b, n⟩ := x
    have hk' : ∀ e ∈ es, e.kind ≠ .keep := fun e he => hk e (List.mem_cons_of_mem _ he)
    by_cases hx : kind' = kind
    · cases hx
      rw [ofKind, List.filter_cons_of_pos (by simp)] at he
      cases he
      cases kind with
      | keep => exact absurd rfl (hk _ List.mem_cons_self)
      | delete => exact ⟨h.1.1, fun _ => h.1.2, nofun⟩
      | insert => exact ⟨h.1.1, nofun, fun _ => h.1.2⟩
    · rw [ofKind, List.filter_cons_of_neg (by simpa using hx)] at he
      -- The runs that are passed are of the other kind and leave the position of this one.
      cases kind' with
      | keep => exact absurd rfl (hk _ List.mem_cons_self)
      | delete =>
        obtain ⟨hl, -, hn⟩ := ih hk' h.2 he
        exact ⟨hl, fun hd => absurd hd.symm hx, hn⟩
      | insert =>
        obtain ⟨hl, hd, -⟩ := ih hk' h.2 he
        exact ⟨hl, hd, fun hi => absurd hi.symm hx⟩

theorem ofKind_ne_nil {es : List Edit} (hne : es ≠ []) (hk : ∀ e ∈ es, e.kind ≠ .keep) :
    ¬ (ofKind .delete es = [] ∧ ofKind .insert es = []) := by
  rintro ⟨hd, hi⟩
  cases es with
  | nil => exact hne rfl
  | cons e es =>
    obtain ⟨kind, a, b, n⟩ := e
    cases kind with
    | keep => exact absurd rfl (hk _ List.mem_cons_self)
    | delete => cases hd
    | insert => cases hi

theorem Reaches.ofChanges {es : List Edit} (hne : es ≠ []) (hk : ∀ e ∈ es, e.kind ≠ .keep)
    (h : Reaches old new i j es i' j') :
    ∃ b, Block.ofChanges es = [b] ∧ b.kept = false ∧ Reaches old new i j [b] i' j' := by
  obtain ⟨hi', hj'⟩ := h.changed hk
  cases hd : ofKind .delete es with
  | nil =>
    cases hi : ofKind .insert es with
    | nil => exact absurd ⟨hd, hi⟩ (ofKind_ne_nil hne hk)
    | cons e is =>
      obtain ⟨hl, -, he⟩ := h.first hk hi
      rw [hd] at hi'
      rw [hi] at hj'
      refine ⟨⟨false, e.old, 0, e.new, span (e :: is)⟩, ?_, rfl, ⟨?_, ?_, fun _ => he rfl, nofun⟩,
        hi', hj'⟩
      · simp only [Block.ofChanges, hd, hi]
      · exact Nat.add_pos_right _ (Nat.add_pos_left hl _)
      · exact fun h0 => absurd h0 (Nat.lt_irrefl 0)
  | cons d ds =>
    obtain ⟨hl, hdold, -⟩ := h.first hk hd
    rw [hd] at hi'
    cases hi : ofKind .insert es with
    | nil =>
      rw [hi] at hj'
      refine ⟨⟨false, d.old, span (d :: ds), d.new, 0⟩, ?_, rfl,
        ⟨?_, fun _ => hdold rfl, ?_, nofun⟩, hi', hj'⟩
      · simp only [Block.ofChanges, hd, hi]
      · exact Nat.add_pos_left (Nat.add_pos_left hl _) _
      · exact fun h0 => absurd h0 (Nat.lt_irrefl 0)
    | cons e is =>
      obtain ⟨-, -, he⟩ := h.first hk hi
      rw [hi] at hj'
      refine ⟨⟨false, d.old, span (d :: ds), e.new, span (e :: is)⟩, ?_, rfl,
        ⟨?_, fun _ => hdold rfl, fun _ => he rfl, nofun⟩, hi', hj'⟩
      · simp only [Block.ofChanges, hd, hi]
      · exact Nat.add_pos_left (Nat.add_pos_left hl _) _

/-- The runs are all kept or all changed. -/
def Uniform (es : List Edit) : Prop :=
  (∀ e ∈ es, e.kind = .keep) ∨ ∀ e ∈ es, e.kind ≠ .keep

def allKept (es : List Edit) : Bool := es.all fun e => e.kind == .keep

theorem Uniform.allKept_eq {es : List Edit} {e : Edit} (h : Uniform es) (he : e ∈ es) :
    allKept es = (e.kind == .keep) := by
  obtain hk | hk := h
  · rw [allKept, hk e he, List.all_eq_true.mpr fun x hx => beq_iff_eq.mpr (hk x hx)]
    rfl
  · rw [allKept, beq_eq_false_iff_ne.mpr (hk e he), List.all_eq_false]
    exact ⟨e, he, by simpa using hk e he⟩

/-- Whether a run is followed by one of its stretch. -/
abbrev joins (a b : Edit) : Bool := (a.kind == .keep) == (b.kind == .keep)

theorem uniform_of_isChain {es : List Edit} (h : es.IsChain fun a b => joins a b) :
    Uniform es := by
  induction es with
  | nil => exact .inl nofun
  | cons e es ih =>
    rw [List.isChain_cons] at h
    cases es with
    | nil =>
      by_cases he : e.kind = .keep
      · exact .inl (List.forall_mem_singleton.mpr he)
      · exact .inr (List.forall_mem_singleton.mpr he)
    | cons f es =>
      have hj : (e.kind == .keep) = (f.kind == .keep) := beq_iff_eq.mp (h.1 f rfl)
      rw [Bool.eq_iff_iff, beq_iff_eq, beq_iff_eq] at hj
      obtain hk | hk := ih h.2
      · exact .inl (List.forall_mem_cons.mpr ⟨hj.mpr (hk f List.mem_cons_self), hk⟩)
      · exact .inr (List.forall_mem_cons.mpr ⟨mt hj.mp (hk f List.mem_cons_self), hk⟩)

/-- The block of a stretch. -/
abbrev ofStretch (es : List Edit) : List Block :=
  match es with
  | [] => []
  | e :: _ => if e.kind = .keep then Block.ofKept es else Block.ofChanges es

theorem Reaches.ofStretch {es : List Edit} (hne : es ≠ []) (hu : Uniform es)
    (h : Reaches old new i j es i' j') :
    ∃ b, ofStretch es = [b] ∧ b.kept = allKept es ∧ Reaches old new i j [b] i' j' := by
  obtain ⟨e, rest, rfl⟩ := List.exists_cons_of_ne_nil hne
  have hall := hu.allKept_eq List.mem_cons_self
  obtain hk | hk := hu
  · obtain ⟨b, he, hb, hr⟩ := h.ofKept hne hk
    have hkeep := hk e List.mem_cons_self
    exact ⟨b, by rw [Diff.ofStretch, if_pos hkeep, he], by rw [hb, hall, hkeep]; rfl, hr⟩
  · obtain ⟨b, he, hb, hr⟩ := h.ofChanges hne hk
    have hkeep := hk e List.mem_cons_self
    exact ⟨b, by rw [Diff.ofStretch, if_neg hkeep, he],
      by rw [hb, hall, beq_eq_false_iff_ne.mpr hkeep], hr⟩

theorem Reaches.ofStretches {ss : List (List Edit)} (hs : ∀ s ∈ ss, s ≠ [] ∧ Uniform s)
    (h : Reaches old new i j ss.flatten i' j') :
    Reaches old new i j (ss.flatMap Diff.ofStretch) i' j' ∧
      (ss.flatMap Diff.ofStretch).map Block.kept = ss.map allKept := by
  induction ss generalizing i j with
  | nil => exact ⟨h, rfl⟩
  | cons s ss ih =>
    rw [List.flatten_cons] at h
    obtain ⟨p, q, hfirst, hrest⟩ := reaches_append.mp h
    obtain ⟨hne, hu⟩ := hs s List.mem_cons_self
    obtain ⟨b, he, hb, hr⟩ := hfirst.ofStretch hne hu
    obtain ⟨hr', hk⟩ := ih (fun s hs' => hs s (List.mem_cons_of_mem _ hs')) hrest
    rw [List.flatMap_cons, he]
    refine ⟨reaches_append.mpr ⟨p, q, hr, hr'⟩, ?_⟩
    rw [List.map_append, hk, List.map_cons, List.map_cons, hb]
    rfl

/-- Neighbouring blocks are not both kept and not both changed. -/
def Alternating (bs : List Block) : Prop := (bs.map Block.kept).IsChain (· ≠ ·)

theorem uniform_of_mem_stretches {es s : List Edit} (h : s ∈ stretches es) :
    s ≠ [] ∧ Uniform s :=
  ⟨List.ne_nil_of_mem_splitBy h, uniform_of_isChain (List.isChain_of_mem_splitBy h)⟩

theorem isChain_allKept_stretches (es : List Edit) :
    ((stretches es).map allKept).IsChain (· ≠ ·) := by
  rw [List.isChain_map]
  refine (List.isChain_getLast_head_splitBy joins es).imp_of_mem_imp ?_
  rintro s t hs ht ⟨hl, hh, hj⟩
  rw [(uniform_of_mem_stretches hs).2.allKept_eq (List.getLast_mem hl),
    (uniform_of_mem_stretches ht).2.allKept_eq (List.head_mem hh)]
  exact beq_eq_false_iff_ne.mp hj

/-- The blocks of a script lead between the same lines, kept and changed ones in turn. -/
theorem reaches_blocks {es : List Edit} (h : Reaches old new i j es i' j') :
    Reaches old new i j (blocks es) i' j' ∧ Alternating (blocks es) := by
  rw [← List.flatten_splitBy joins es] at h
  obtain ⟨hr, hk⟩ := h.ofStretches fun s hs => uniform_of_mem_stretches hs
  refine ⟨hr, ?_⟩
  rw [Alternating]
  exact hk ▸ isChain_allKept_stretches es

end NodeDecl.Diff
