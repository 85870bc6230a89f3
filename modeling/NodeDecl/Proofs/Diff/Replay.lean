import NodeDecl.Proofs.Diff.Blocks
import NodeDecl.Proofs.Diff.Reading

/-! # Replaying hunks

The marked lines of a hunk, replayed at the place where its blocks stand, use up the old lines of
the hunk and make the new ones. A hunk is accepted there if and only if it states the place where
its blocks begin and the place where they end.
-/

namespace NodeDecl.Diff

variable {old new : Array Line} {i j i' j' : Nat}

theorem slice_append (lines : Array Line) (i m n : Nat) :
    slice lines i m ++ slice lines (i + m) n = slice lines i (m + n) := by
  rw [slice_eq, slice_eq, slice_eq, List.take_add, List.drop_drop]

theorem slice_append_drop (lines : Array Line) (i n : Nat) :
    slice lines i n ++ lines.toList.drop (i + n) = lines.toList.drop i := by
  rw [slice_eq, ← List.drop_drop, List.take_append_drop]

theorem length_slice {lines : Array Line} {i n : Nat} (h : i + n ≤ lines.size) :
    (slice lines i n).length = n := by
  rw [slice_eq, List.length_take, List.length_drop, Array.length_toList]
  omega

theorem slice_eq_of_sameLines {n : Nat} (h : SameLines old new i j n) :
    slice old i n = slice new j n := by
  apply List.ext_getElem?
  intro k
  rw [slice_eq, slice_eq]
  by_cases hk : k < n
  · rw [List.getElem?_take_of_lt hk, List.getElem?_take_of_lt hk, List.getElem?_drop,
      List.getElem?_drop, Array.getElem?_toList, Array.getElem?_toList, h k hk]
  · rw [List.getElem?_take_eq_none (Nat.le_of_not_lt hk),
      List.getElem?_take_eq_none (Nat.le_of_not_lt hk)]

/-- The kept and the deleted lines. -/
def oldLines (marked : List (Kind × Line)) : List Line :=
  (marked.filter fun p => p.1 ≠ .insert).map Prod.snd

/-- The kept and the inserted lines. -/
def newLines (marked : List (Kind × Line)) : List Line :=
  (marked.filter fun p => p.1 ≠ .delete).map Prod.snd

theorem length_oldLines (marked : List (Kind × Line)) :
    (oldLines marked).length = marked.countP fun p => p.1 ≠ .insert := by
  rw [oldLines, List.length_map, List.countP_eq_length_filter]

theorem length_newLines (marked : List (Kind × Line)) :
    (newLines marked).length = marked.countP fun p => p.1 ≠ .delete := by
  rw [newLines, List.length_map, List.countP_eq_length_filter]

section Lines

variable (line : Line) (marked : List (Kind × Line))

@[simp]
theorem oldLines_keep : oldLines ((.keep, line) :: marked) = line :: oldLines marked := rfl

@[simp]
theorem oldLines_delete : oldLines ((.delete, line) :: marked) = line :: oldLines marked := rfl

@[simp]
theorem oldLines_insert : oldLines ((.insert, line) :: marked) = oldLines marked := rfl

@[simp]
theorem newLines_keep : newLines ((.keep, line) :: marked) = line :: newLines marked := rfl

@[simp]
theorem newLines_delete : newLines ((.delete, line) :: marked) = newLines marked := rfl

@[simp]
theorem newLines_insert : newLines ((.insert, line) :: marked) = line :: newLines marked := rfl

end Lines

/-- A replay takes the kept and deleted lines off the old ones and makes the kept and inserted. -/
theorem replay_eq_some_iff {marked : List (Kind × Line)} {rest made tail : List Line} :
    replay marked rest = some (made, tail) ↔
      rest = oldLines marked ++ tail ∧ made = newLines marked := by
  fun_induction replay marked rest generalizing made with
  | case1 rest =>
    constructor
    · rintro ⟨⟩
      exact ⟨rfl, rfl⟩
    · rintro ⟨rfl, rfl⟩
      rfl
  | case2 line marked rest ih =>
    rw [oldLines_insert, newLines_insert, Option.map_eq_some_iff]
    constructor
    · rintro ⟨⟨made', tail'⟩, hr, ⟨⟩⟩
      obtain ⟨hrest, rfl⟩ := ih.mp hr
      exact ⟨hrest, rfl⟩
    · rintro ⟨hrest, rfl⟩
      exact ⟨_, ih.mpr ⟨hrest, rfl⟩, rfl⟩
  | case3 kind marked line rest hkind ih =>
    rw [Option.map_eq_some_iff]
    cases kind with
    | insert => exact absurd rfl hkind
    | keep =>
      rw [oldLines_keep, newLines_keep, List.cons_append, List.cons_inj_right]
      constructor
      · rintro ⟨⟨made', tail'⟩, hr, ⟨⟩⟩
        obtain ⟨hrest, rfl⟩ := ih.mp hr
        exact ⟨hrest, rfl⟩
      · rintro ⟨hrest, rfl⟩
        exact ⟨_, ih.mpr ⟨hrest, rfl⟩, rfl⟩
    | delete =>
      rw [oldLines_delete, newLines_delete, List.cons_append, List.cons_inj_right]
      constructor
      · rintro ⟨⟨made', tail'⟩, hr, ⟨⟩⟩
        exact ih.mp hr
      · intro h
        exact ⟨_, ih.mpr h, rfl⟩
  | case4 kind line marked first rest hkind hne =>
    have hold : oldLines ((kind, line) :: marked) = line :: oldLines marked := by
      cases kind with
      | insert => exact absurd rfl hkind
      | keep => rfl
      | delete => rfl
    rw [hold]
    constructor
    · nofun
    · rintro ⟨⟨⟩, -⟩
      exact absurd rfl hne
  | case5 p marked hkind =>
    obtain ⟨kind, line⟩ := p
    cases kind with
    | insert => exact absurd rfl (hkind line)
    | keep => exact ⟨nofun, nofun⟩
    | delete => exact ⟨nofun, nofun⟩

theorem Block.Stands.slice_old {b : Block} (h : b.Stands old new i j) :
    slice old b.old b.oldLength = slice old i b.oldLength := by
  obtain h0 | hpos := Nat.eq_zero_or_pos b.oldLength
  · rw [h0, slice_eq, slice_eq, List.take_zero, List.take_zero]
  · rw [h.2.1 hpos]

theorem Block.Stands.slice_new {b : Block} (h : b.Stands old new i j) :
    slice new b.new b.newLength = slice new j b.newLength := by
  obtain h0 | hpos := Nat.eq_zero_or_pos b.newLength
  · rw [h0, slice_eq, slice_eq, List.take_zero, List.take_zero]
  · rw [h.2.2.1 hpos]

theorem oldLines_append (as bs : List (Kind × Line)) :
    oldLines (as ++ bs) = oldLines as ++ oldLines bs := by
  rw [oldLines, List.filter_append, List.map_append]
  rfl

theorem newLines_append (as bs : List (Kind × Line)) :
    newLines (as ++ bs) = newLines as ++ newLines bs := by
  rw [newLines, List.filter_append, List.map_append]
  rfl

theorem oldLines_map (kind : Kind) (lines : List Line) :
    oldLines (lines.map (kind, ·)) = if kind = .insert then [] else lines := by
  induction lines with
  | nil => cases kind <;> rfl
  | cons line lines ih =>
    cases kind <;> simp [ih]

theorem newLines_map (kind : Kind) (lines : List Line) :
    newLines (lines.map (kind, ·)) = if kind = .delete then [] else lines := by
  induction lines with
  | nil => cases kind <;> rfl
  | cons line lines ih =>
    cases kind <;> simp [ih]

theorem Block.Stands.oldLines_marked {b : Block} (h : b.Stands old new i j) :
    oldLines (b.marked old new) = slice old i b.oldLength := by
  rw [← h.slice_old, Block.marked]
  split
  · exact oldLines_map .keep _
  · rw [oldLines_append, oldLines_map, oldLines_map]
    exact List.append_nil _

theorem Block.Stands.newLines_marked {b : Block} (h : b.Stands old new i j) :
    newLines (b.marked old new) = slice new j b.newLength := by
  rw [Block.marked]
  split
  · next hk =>
    obtain ⟨he, hs⟩ := h.2.2.2 hk
    rw [newLines_map, h.slice_old, slice_eq_of_sameLines hs, he]
    rfl
  · rw [newLines_append, newLines_map, newLines_map, h.slice_new]
    rfl

theorem Reaches.lines_marked {bs : List Block} (h : Reaches old new i j bs i' j') :
    oldLines (bs.flatMap (Block.marked old new)) = slice old i (i' - i) ∧
      newLines (bs.flatMap (Block.marked old new)) = slice new j (j' - j) := by
  induction bs generalizing i j with
  | nil =>
    obtain ⟨rfl, rfl⟩ := h
    rw [Nat.sub_self, Nat.sub_self, slice_eq, slice_eq]
    exact ⟨rfl, rfl⟩
  | cons b bs ih =>
    obtain ⟨hb, hbs⟩ := reaches_block_cons.mp h
    obtain ⟨hold, hnew⟩ := ih hbs
    have hle := hbs.le
    rw [List.flatMap_cons, oldLines_append, newLines_append, hb.oldLines_marked,
      hb.newLines_marked, hold, hnew, slice_append, slice_append,
      show b.oldLength + (i' - (i + b.oldLength)) = i' - i by omega,
      show b.newLength + (j' - (j + b.newLength)) = j' - j by omega]
    exact ⟨rfl, rfl⟩

theorem Reaches.replay {bs : List Block} (h : Reaches old new i j bs i' j') :
    Diff.replay (bs.flatMap (Block.marked old new)) (old.toList.drop i) =
      some (slice new j (j' - j), old.toList.drop i') := by
  obtain ⟨hold, hnew⟩ := h.lines_marked
  rw [replay_eq_some_iff, hold, hnew]
  refine ⟨?_, rfl⟩
  rw [← slice_append_drop old i (i' - i), Nat.add_sub_cancel' h.le.1]

/-- Where changes are applied, each has for its kept and deleted lines the old ones in its range. -/
theorem oldLines_of_applyChanges {p q : Nat} {cs : List Change} {made : List Line}
    (h : applyChanges p q (old.toList.drop p) cs = some made) :
    ∀ c ∈ cs, oldLines c.lines = slice old c.old.before c.old.length := by
  induction cs generalizing p q made with
  | nil => nofun
  | cons c cs ih =>
    rw [applyChanges] at h
    split at h
    · next hc =>
      obtain ⟨hp, -, -, hcounts⟩ := hc
      rw [List.drop_drop, Nat.add_sub_cancel' hp] at h
      split at h
      · cases h
      · next made' tail hr =>
        obtain ⟨hrest, -⟩ := replay_eq_some_iff.mp hr
        have hlen : (oldLines c.lines).length = c.old.length := by
          rw [Change.counts, decide_eq_true_iff] at hcounts
          rw [length_oldLines, hcounts.1]
        have hold : oldLines c.lines = slice old c.old.before c.old.length := by
          rw [slice_eq, hrest, ← hlen, List.take_left]
        have htail : tail = old.toList.drop (c.old.before + c.old.length) := by
          rw [← List.drop_drop, hrest, ← hlen, List.drop_left]
        obtain ⟨made'', happly, -⟩ := Option.map_eq_some_iff.mp h
        rw [htail] at happly
        exact List.forall_mem_cons.mpr ⟨hold, ih happly⟩
    · cases h

/-- The first block, if any, states line `i` of the old text and line `j` of the new one. -/
def StartsAt (bs : List Block) (i j : Nat) : Prop := ∀ b ∈ bs.head?, b.old = i ∧ b.new = j

/-- The last block, if any, states an end before line `i` of the old text and line `j` of the
new one. -/
def EndsAt (bs : List Block) (i j : Nat) : Prop := ∀ b ∈ bs.getLast?, b.oldEnd = i ∧ b.newEnd = j

/-- Two blocks in turn, one of which is kept, take up lines of both texts. -/
theorem Reaches.lt_of_alternating {a b : Block} {bs : List Block} (halt : Alternating (a :: b :: bs))
    (h : Reaches old new i j (a :: b :: bs) i' j') : i < i' ∧ j < j' := by
  rw [reaches_block_cons, reaches_block_cons] at h
  obtain ⟨ha, hb, h⟩ := h
  obtain ⟨hi, hj⟩ := h.le
  have hkept : ∀ {c : Block} {p q}, c.Stands old new p q → c.kept = true →
      0 < c.oldLength ∧ 0 < c.newLength := by
    intro c p q hc hk
    have hpos := hc.1
    have heq := (hc.2.2.2 hk).1
    omega
  have hne : a.kept ≠ b.kept := (List.isChain_cons_cons.mp halt).1
  cases hk : a.kept with
  | true =>
    have hpos := hkept ha hk
    omega
  | false =>
    have hpos := hkept hb (by rw [hk] at hne; simpa using hne.symm)
    omega

/-- A hunk states its place if its ranges begin at the same distance from the last known place and
are as long as its blocks. -/
theorem startsAt_and_endsAt {h : Hunk} {p q k : Nat} (hne : h ≠ []) (halt : Alternating h)
    (hr : Reaches old new (p + k) (q + k) h i' j')
    (hp : p ≤ (h.head?.getD default).old)
    (hq : (h.head?.getD default).new = q + ((h.head?.getD default).old - p))
    (hi : (h.getLast?.getD default).oldEnd - (h.head?.getD default).old = i' - (p + k))
    (hj : (h.getLast?.getD default).newEnd - (h.head?.getD default).new = j' - (q + k)) :
    StartsAt h (p + k) (q + k) ∧ EndsAt h i' j' := by
  cases h with
  | nil => exact absurd rfl hne
  | cons b bs =>
    have hb := (reaches_block_cons.mp hr).1
    have hpos := hb.1
    have hold := hb.2.1
    have hnew := hb.2.2.1
    change p ≤ b.old at hp
    change b.new = q + (b.old - p) at hq
    -- One of the two places of the block is right, and the other is at the same distance.
    have hstart : b.old = p + k ∧ b.new = q + k := by omega
    refine ⟨fun c hc => by cases hc; exact hstart, ?_⟩
    cases bs with
    | nil =>
      intro c hc
      rw [List.getLast?_singleton] at hc
      cases hc
      obtain ⟨he, he'⟩ := (reaches_block_cons.mp hr).2
      rw [Block.oldEnd, Block.newEnd, hstart.1, hstart.2]
      exact ⟨he, he'⟩
    | cons b' bs =>
      obtain ⟨hlt, hlt'⟩ := hr.lt_of_alternating halt
      intro c hc
      rw [Option.mem_def.mp hc] at hi hj
      change c.oldEnd - b.old = i' - (p + k) at hi
      change c.newEnd - b.new = j' - (q + k) at hj
      omega

theorem startsAt_iff {h : Hunk} (hne : h ≠ []) :
    StartsAt h i j ↔ (h.head?.getD default).old = i ∧ (h.head?.getD default).new = j := by
  rw [StartsAt, List.head?_eq_some_head hne]
  simp

theorem endsAt_iff {h : Hunk} (hne : h ≠ []) :
    EndsAt h i j ↔ (h.getLast?.getD default).oldEnd = i ∧ (h.getLast?.getD default).newEnd = j := by
  rw [EndsAt, List.getLast?_eq_some_getLast hne]
  simp

@[simp]
theorem Hunk.before_old_change (h : Hunk) :
    (Hunk.change old new h).old.before = (h.head?.getD default).old :=
  Range.before_ofBounds _ _

@[simp]
theorem Hunk.before_new_change (h : Hunk) :
    (Hunk.change old new h).new.before = (h.head?.getD default).new :=
  Range.before_ofBounds _ _

section Hunk

variable {h : Hunk} {p q k : Nat} (hne : h ≠ []) (halt : Alternating h)
  (hr : Reaches old new (p + k) (q + k) h i' j') (hi' : i' ≤ old.size) (hj' : j' ≤ new.size)

include hr hi' hj' in
theorem counts_change_iff : (Hunk.change old new h).counts = true ↔
    i' - (p + k) = (h.getLast?.getD default).oldEnd - (h.head?.getD default).old ∧
      j' - (q + k) = (h.getLast?.getD default).newEnd - (h.head?.getD default).new := by
  obtain ⟨hold, hnew⟩ := hr.lines_marked
  have hle := hr.le
  have hold' : (Hunk.change old new h).lines.countP (fun p => p.1 ≠ .insert) = i' - (p + k) := by
    rw [← length_oldLines, Hunk.change, hold, length_slice (by omega)]
  have hnew' : (Hunk.change old new h).lines.countP (fun p => p.1 ≠ .delete) = j' - (q + k) := by
    rw [← length_newLines, Hunk.change, hnew, length_slice (by omega)]
  rw [Change.counts, decide_eq_true_iff, hold', hnew']
  exact Iff.rfl

include hne halt hr hi' hj' in
theorem accepts_iff : (p ≤ (Hunk.change old new h).old.before ∧
    (Hunk.change old new h).old.before - p ≤ (old.toList.drop p).length ∧
      (Hunk.change old new h).new.before = q + ((Hunk.change old new h).old.before - p) ∧
        (Hunk.change old new h).counts = true) ↔
    StartsAt h (p + k) (q + k) ∧ EndsAt h i' j' := by
  rw [counts_change_iff hr hi' hj', Hunk.before_old_change, Hunk.before_new_change]
  constructor
  · rintro ⟨hp, -, hq, hi, hj⟩
    exact startsAt_and_endsAt hne halt hr hp hq hi.symm hj.symm
  · rintro ⟨hs, he⟩
    obtain ⟨hs, hs'⟩ := (startsAt_iff hne).mp hs
    obtain ⟨he, he'⟩ := (endsAt_iff hne).mp he
    have hle := hr.le.1
    rw [hs, hs', he, he', List.length_drop, Array.length_toList]
    omega

include hne halt hr hi' hj' in
theorem applyChanges_hunk {cs : List Change} {made : List Line} (hs : SameLines old new p q k) :
    applyChanges p q (old.toList.drop p) (Hunk.change old new h :: cs) = some made ↔
      StartsAt h (p + k) (q + k) ∧ EndsAt h i' j' ∧
        ∃ rest, applyChanges i' j' (old.toList.drop i') cs = some rest ∧
          made = slice new q (j' - q) ++ rest := by
  have haccepts := accepts_iff hne halt hr hi' hj'
  rw [applyChanges]
  by_cases hc : StartsAt h (p + k) (q + k) ∧ EndsAt h i' j'
  · obtain ⟨hfirst, hfirst'⟩ := (startsAt_iff hne).mp hc.1
    have hle := hr.le
    have hcounts := (counts_change_iff hr hi' hj').mp (haccepts.mpr hc).2.2.2
    have hi : p + k + (Hunk.change old new h).old.length = i' := by
      change p + k + ((h.getLast?.getD default).oldEnd - (h.head?.getD default).old) = i'
      omega
    have hj : q + k + (Hunk.change old new h).new.length = j' := by
      change q + k + ((h.getLast?.getD default).newEnd - (h.head?.getD default).new) = j'
      omega
    have hreplay : replay (Hunk.change old new h).lines (old.toList.drop (p + k)) =
        some (slice new (q + k) (j' - (q + k)), old.toList.drop i') := hr.replay
    have hmade : (old.toList.drop p).take k ++ slice new (q + k) (j' - (q + k)) =
        slice new q (j' - q) := by
      rw [← slice_eq, slice_eq_of_sameLines hs, slice_append]
      rw [show k + (j' - (q + k)) = j' - q by omega]
    rw [if_pos (haccepts.mpr hc), Hunk.before_old_change, Hunk.before_new_change, hfirst, hfirst',
      Nat.add_sub_cancel_left, List.drop_drop, hreplay]
    simp only []
    rw [hi, hj, hmade, Option.map_eq_some_iff]
    simp only [hc, true_and, eq_comm]
  · rw [if_neg (mt haccepts.mp hc)]
    constructor
    · nofun
    · rintro ⟨hs, he, -⟩
      exact absurd ⟨hs, he⟩ hc

end Hunk

end NodeDecl.Diff
