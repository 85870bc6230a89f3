import NodeDecl.Proofs.Diff.Replay

/-! # Grouping loses nothing

Kept lines are left out before the first change, after the last one and between two hunks. What
is left out is the same in both texts, so the hunks of a script still make the new lines of the
old ones. They are accepted if and only if the first and the last block state the ends of both
texts: all other hunks begin and end with kept lines, whose places are right.
-/

namespace NodeDecl.Diff

variable {old new : Array Line} {i j i' j' : Nat}

theorem Block.Stands.kept {b : Block} (h : b.Stands old new i j) (hk : b.kept = true) :
    0 < b.oldLength ∧ b.newLength = b.oldLength ∧ b.old = i ∧ b.new = j ∧
      SameLines old new i j b.oldLength := by
  obtain ⟨hpos, ho, hn, hs⟩ := h
  obtain ⟨he, hs⟩ := hs hk
  exact ⟨by omega, he, ho (by omega), hn (by omega), hs⟩

theorem Block.Stands.firstLines {b : Block} (h : b.Stands old new i j) (hk : b.kept = true)
    {n : Nat} (hn : 0 < n) : (b.firstLines n).Stands old new i j := by
  obtain ⟨hpos, he, ho, hn', hs⟩ := h.kept hk
  refine ⟨?_, fun _ => ho, fun _ => hn', fun _ => ⟨?_, hs.take (Nat.min_le_left _ _)⟩⟩
  · simp only [Block.firstLines]
    omega
  · simp only [Block.firstLines, he]

theorem Block.Stands.lastLines {b : Block} (h : b.Stands old new i j) (hk : b.kept = true)
    {n : Nat} (hn : 0 < n) :
    (b.lastLines n).Stands old new (i + (b.oldLength - n)) (j + (b.oldLength - n)) := by
  obtain ⟨hpos, he, rfl, rfl, hs⟩ := h.kept hk
  refine ⟨?_, fun _ => rfl, fun _ => rfl, fun _ => ⟨?_, hs.drop _⟩⟩
  · simp only [Block.lastLines]
    omega
  · simp only [Block.lastLines, he]

theorem Block.Stands.reachesEnd {b : Block} (h : b.Stands old new i j) (hk : b.kept = true)
    {n : Nat} (hn : 0 < n) : Reaches old new (i + (b.oldLength - n)) (j + (b.oldLength - n))
      [b.lastLines n] (i + b.oldLength) (j + b.newLength) := by
  refine ⟨h.lastLines hk hn, ?_, ?_⟩
  · change i + (b.oldLength - n) + (b.oldLength - (b.oldLength - n)) = i + b.oldLength
    omega
  · rw [(h.kept hk).2.1]
    change j + (b.oldLength - n) + (b.newLength - (b.oldLength - n)) = j + b.oldLength
    rw [(h.kept hk).2.1]
    omega

theorem Block.oldEnd_lastLines (b : Block) (n : Nat) : (b.lastLines n).oldEnd = b.oldEnd := by
  simp only [lastLines, oldEnd]
  omega

theorem Block.newEnd_lastLines {b : Block} {n : Nat} (h : b.newLength = b.oldLength) :
    (b.lastLines n).newEnd = b.newEnd := by
  simp only [lastLines, newEnd, h]
  omega

theorem StartsAt.ofKept {b : Block} (h : b.Stands old new i j) (hk : b.kept = true)
    (bs : List Block) : StartsAt (b :: bs) i j := by
  rintro c ⟨⟩
  obtain ⟨-, -, ho, hn, -⟩ := h.kept hk
  exact ⟨ho, hn⟩

theorem EndsAt.ofKept {b : Block} (h : b.Stands old new i j) (hk : b.kept = true)
    (bs : List Block) : EndsAt (bs ++ [b]) (i + b.oldLength) (j + b.newLength) := by
  intro c hc
  rw [List.getLast?_concat] at hc
  cases hc
  obtain ⟨-, -, ho, hn, -⟩ := h.kept hk
  rw [Block.oldEnd, Block.newEnd, ho, hn]
  exact ⟨rfl, rfl⟩

/-- Where blocks start depends on the place of the first block alone. -/
theorem startsAt_congr {b c : Block} (ho : b.old = c.old) (hn : b.new = c.new)
    (as bs cs : List Block) : StartsAt (as ++ b :: bs) i j ↔ StartsAt (as ++ c :: cs) i j := by
  cases as with
  | nil => simp [StartsAt, ho, hn]
  | cons => exact Iff.rfl

/-- Where blocks end depends on the end of the last block alone. -/
theorem endsAt_congr {b c : Block} (ho : b.oldEnd = c.oldEnd) (hn : b.newEnd = c.newEnd)
    (as bs cs : List Block) : EndsAt (as ++ b :: cs) i j ↔ EndsAt (bs ++ c :: cs) i j := by
  rw [EndsAt, EndsAt, List.getLast?_append_cons, List.getLast?_append_cons]
  cases cs with
  | nil => simp [ho, hn]
  | cons => exact Iff.rfl

/-- The rest of the old text from line `i` on is the rest of the new text from line `j` on. -/
def SameRest (old new : Array Line) (i j : Nat) : Prop := old.toList.drop i = new.toList.drop j

theorem SameLines.sameRest {k : Nat} (hs : SameLines old new i j k)
    (h : SameRest old new (i + k) (j + k)) : SameRest old new i j := by
  rw [SameRest, ← slice_append_drop old i k, ← slice_append_drop new j k,
    slice_eq_of_sameLines hs, h]

/-- From line `p` of the old text and line `q` of the new one on, the changes are accepted if and
only if the blocks state the places where they begin and end, and then make the new lines. -/
def Makes (old new : Array Line) (p q : Nat) (cs : List Change) (bs : List Block)
    (i j n m : Nat) : Prop :=
  ∀ made, applyChanges p q (old.toList.drop p) cs = some made ↔
    StartsAt bs i j ∧ EndsAt bs n m ∧ made = new.toList.drop q

theorem makes_nil {p q n m : Nat} {bs : List Block} (h : SameRest old new p q)
    (hs : StartsAt bs i j) (he : EndsAt bs n m) : Makes old new p q [] bs i j n m := by
  intro made
  rw [applyChanges, h, Option.some.injEq]
  simp only [hs, he, true_and, eq_comm]

section Group

variable {pending bs : List Block} {b : Block} {p q k s t n m : Nat}
  (hs : SameLines old new p q k) (hn : n ≤ old.size) (hm : m ≤ new.size)

theorem slice_append_rest (h : q ≤ m) :
    slice new q (m - q) ++ new.toList.drop m = new.toList.drop q := by
  rw [← slice_append_drop new q (m - q), Nat.add_sub_cancel' h]

include hs hn hm

theorem makes_last (hne : pending ≠ []) (halt : Alternating pending)
    (hp : Reaches old new (p + k) (q + k) pending n m) (hrest : SameRest old new n m) :
    Makes old new p q [Hunk.change old new pending] pending (p + k) (q + k) n m := by
  intro made
  have hq : q ≤ m := Nat.le_trans (Nat.le_add_right q k) hp.le.2
  rw [applyChanges_hunk hne halt hp hn hm hs, applyChanges, hrest, ← slice_append_rest hq]
  simp

theorem makes_groupFrom_nil (halt : Alternating pending)
    (hp : Reaches old new (p + k) (q + k) pending n m) (hrest : SameRest old new n m) :
    Makes old new p q ((groupFrom pending []).map (Hunk.change old new)) pending
      (p + k) (q + k) n m := by
  cases pending with
  | nil =>
    obtain ⟨rfl, rfl⟩ := hp
    exact makes_nil (hs.sameRest hrest) nofun nofun
  | cons b bs =>
    cases bs with
    | nil =>
      by_cases hk : b.kept = true
      · obtain ⟨hb, rfl, rfl⟩ := reaches_block_cons.mp hp
        obtain ⟨-, he, -, -, hs'⟩ := hb.kept hk
        rw [groupFrom, if_pos hk, List.map_nil]
        refine makes_nil (hs.sameRest (hs'.sameRest ?_)) (.ofKept hb hk []) (.ofKept hb hk [])
        rwa [he] at hrest
      · rw [groupFrom, if_neg hk]
        exact makes_last hs hn hm (List.cons_ne_nil _ _) halt hp hrest
    | cons c bs => exact makes_last hs hn hm (List.cons_ne_nil _ _) halt hp hrest

/-- A long kept block ends a hunk after its first lines, and its last lines begin the next. -/
theorem makes_cut {cs : List Change} (hp : Reaches old new (p + k) (q + k) pending s t)
    (hb : b.Stands old new s t) (hbs : Reaches old new (s + b.oldLength) (t + b.newLength) bs n m)
    (halt : Alternating (pending ++ b :: bs)) (hk : b.kept = true)
    (hlong : 2 * context < b.oldLength)
    (hcs : Makes old new (s + context) (t + context) cs (b.lastLines context :: bs)
      (s + (b.oldLength - context)) (t + (b.oldLength - context)) n m) :
    Makes old new p q (Hunk.change old new (pending ++ [b.firstLines context]) :: cs)
      (pending ++ b :: bs) (p + k) (q + k) n m := by
  obtain ⟨hpos, he, -, -, hsame⟩ := hb.kept hk
  have hcontext : 0 < context := by decide
  have hfirst := hb.firstLines hk hcontext
  have hold : (b.firstLines context).oldLength = context := Nat.min_eq_right (by omega)
  have hnew : (b.firstLines context).newLength = context := Nat.min_eq_right (by omega)
  have hle := hbs.le
  have hreach : Reaches old new (p + k) (q + k) (pending ++ [b.firstLines context])
      (s + context) (t + context) :=
    reaches_append.mpr ⟨s, t, hp, hfirst, congrArg (s + ·) hold, congrArg (t + ·) hnew⟩
  have halt' : Alternating (pending ++ [b.firstLines context]) := by
    rw [Alternating, List.append_cons, List.map_append] at halt
    have hleft := halt.left_of_append
    rw [List.map_append] at hleft
    rw [Alternating, List.map_append]
    exact hleft
  have hend := EndsAt.ofKept hfirst hk pending
  rw [hold, hnew] at hend
  have hjoin : slice new q (t + context - q) ++ new.toList.drop (t + context) =
      new.toList.drop q :=
    slice_append_rest (Nat.le_trans (Nat.le_add_right q k) hreach.le.2)
  intro made
  rw [applyChanges_hunk (by simp) halt' hreach (by omega) (by omega) hs,
    startsAt_congr (b := b.firstLines context) (c := b) rfl rfl pending [] bs]
  have hlast := endsAt_congr (i := n) (j := m) (b.oldEnd_lastLines context)
    (Block.newEnd_lastLines he) [] pending bs
  constructor
  · rintro ⟨hstart, -, rest, hrest, rfl⟩
    obtain ⟨-, hl, rfl⟩ := (hcs rest).mp hrest
    exact ⟨hstart, hlast.mp hl, hjoin⟩
  · rintro ⟨hstart, hl, rfl⟩
    exact ⟨hstart, hend, _, (hcs _).mpr ⟨.ofKept (hb.lastLines hk hcontext) hk bs,
      hlast.mpr hl, rfl⟩, hjoin.symm⟩

theorem makes_groupFrom (hp : Reaches old new (p + k) (q + k) pending s t)
    (hb : Reaches old new s t bs n m) (halt : Alternating (pending ++ bs))
    (hrest : SameRest old new n m) :
    Makes old new p q ((groupFrom pending bs).map (Hunk.change old new)) (pending ++ bs)
      (p + k) (q + k) n m := by
  induction bs generalizing pending p q k s t with
  | nil =>
    obtain ⟨rfl, rfl⟩ := hb
    rw [List.append_nil] at halt ⊢
    exact makes_groupFrom_nil hs hn hm halt hp hrest
  | cons b bs ih =>
    obtain ⟨hb, hbs⟩ := reaches_block_cons.mp hb
    rw [groupFrom]
    split
    · next hk =>
      refine makes_cut hs hn hm hp hb hbs halt hk.1 hk.2 ?_
      obtain ⟨hpos, he, -, -, hsame⟩ := hb.kept hk.1
      have hlong := hk.2
      have hgap := (hsame.drop context).take (Nat.sub_le _ context)
      have hlast := hb.reachesEnd hk.1 (n := context) (by decide)
      have hskip : ∀ x, x + (b.oldLength - context) =
          x + context + (b.oldLength - context - context) := fun x => by omega
      rw [hskip s, hskip t] at hlast ⊢
      refine ih hgap hlast hbs ?_
      rw [Alternating, List.map_append] at halt
      exact halt.right_of_append
    · have hp' : Reaches old new (p + k) (q + k) (pending ++ [b]) _ _ :=
        reaches_append.mpr ⟨s, t, hp, hb, rfl, rfl⟩
      rw [List.append_cons] at halt
      have hmakes := ih hs hp' hbs halt
      rw [List.append_assoc] at hmakes
      exact hmakes

end Group

theorem exists_trimFirst {bs : List Block} {n m : Nat} (h : Reaches old new i j bs n m)
    (halt : Alternating bs) :
    ∃ k, SameLines old new i j k ∧ Reaches old new (i + k) (j + k) (trimFirst bs) n m ∧
      Alternating (trimFirst bs) ∧ (StartsAt (trimFirst bs) (i + k) (j + k) ↔ StartsAt bs i j) ∧
        ∀ a b, EndsAt (trimFirst bs) a b ↔ EndsAt bs a b := by
  cases bs with
  | nil => exact ⟨0, nofun, h, halt, Iff.rfl, fun _ _ => Iff.rfl⟩
  | cons b bs =>
    rw [trimFirst]
    split
    · next hk =>
      obtain ⟨hb, hbs⟩ := reaches_block_cons.mp h
      obtain ⟨-, he, -, -, hs⟩ := hb.kept hk
      have hcontext : 0 < context := by decide
      refine ⟨b.oldLength - context, hs.take (Nat.sub_le _ _),
        reaches_append.mpr ⟨_, _, hb.reachesEnd hk hcontext, hbs⟩, halt, ?_, fun _ _ => ?_⟩
      · exact iff_of_true (.ofKept (hb.lastLines hk hcontext) hk bs) (.ofKept hb hk bs)
      · exact endsAt_congr (b.oldEnd_lastLines context) (Block.newEnd_lastLines he) [] [] bs
    · exact ⟨0, nofun, h, halt, Iff.rfl, fun _ _ => Iff.rfl⟩

theorem trimLast_concat (bs : List Block) (b : Block) :
    trimLast (bs ++ [b]) = bs ++ [if b.kept then b.firstLines context else b] := by
  induction bs with
  | nil => rfl
  | cons a bs ih =>
    rw [List.cons_append, trimLast, ih]
    · rfl
    · exact fun h => absurd (List.append_eq_nil_iff.mp h).2 (List.cons_ne_nil _ _)

theorem exists_trimLast {bs : List Block} {n m : Nat} (h : Reaches old new i j bs n m)
    (halt : Alternating bs) (hrest : SameRest old new n m) :
    ∃ n' m', n' ≤ n ∧ m' ≤ m ∧ SameRest old new n' m' ∧ Reaches old new i j (trimLast bs) n' m' ∧
      Alternating (trimLast bs) ∧ (∀ a b, StartsAt (trimLast bs) a b ↔ StartsAt bs a b) ∧
        (EndsAt (trimLast bs) n' m' ↔ EndsAt bs n m) := by
  obtain rfl | ⟨cs, b, rfl⟩ := bs.eq_nil_or_concat'
  · exact ⟨n, m, Nat.le_refl n, Nat.le_refl m, hrest, h, halt, fun _ _ => Iff.rfl, Iff.rfl⟩
  · rw [trimLast_concat]
    split
    · next hk =>
      obtain ⟨s, t, hcs, hlast⟩ := reaches_append.mp h
      obtain ⟨hb, rfl, rfl⟩ := reaches_block_cons.mp hlast
      obtain ⟨-, he, -, -, hsame⟩ := hb.kept hk
      have hfirst := hb.firstLines hk (n := context) (by decide)
      have hle : min b.oldLength context ≤ b.oldLength := Nat.min_le_left _ _
      have hle' : min b.newLength context ≤ b.newLength := Nat.min_le_left _ _
      refine ⟨s + min b.oldLength context, t + min b.newLength context,
        Nat.add_le_add_left hle s, Nat.add_le_add_left hle' t, ?_,
        reaches_append.mpr ⟨s, t, hcs, hfirst, rfl, rfl⟩, ?_,
        fun _ _ => startsAt_congr (b := b.firstLines context) (c := b) rfl rfl cs [] [],
        iff_of_true (.ofKept hfirst hk cs) (.ofKept hb hk cs)⟩
      · rw [he] at hrest ⊢
        refine (hsame.drop (min b.oldLength context)).sameRest ?_
        rwa [Nat.add_assoc, Nat.add_assoc, Nat.add_sub_cancel' hle]
      · rw [Alternating, List.map_append] at halt ⊢
        exact halt
    · exact ⟨n, m, Nat.le_refl n, Nat.le_refl m, hrest, h, halt, fun _ _ => Iff.rfl, Iff.rfl⟩

/-- The hunks of a script are accepted if and only if the script states both ends of both texts,
and then they make the new text. -/
theorem applyChanges_hunks {bs : List Block} {made : List Line}
    (h : Reaches old new 0 0 bs old.size new.size) (halt : Alternating bs) :
    applyChanges 0 0 old.toList ((hunks bs).map (Hunk.change old new)) = some made ↔
      StartsAt bs 0 0 ∧ EndsAt bs old.size new.size ∧ made = new.toList := by
  have hrest : SameRest old new old.size new.size := by
    rw [SameRest, ← Array.length_toList, ← Array.length_toList, List.drop_length,
      List.drop_length]
  obtain ⟨k, hs, h, halt, hstart, hend⟩ := exists_trimFirst h halt
  obtain ⟨n, m, hn, hm, hrest, h, halt, hstart', hend'⟩ := exists_trimLast h halt hrest
  have hmakes := makes_groupFrom hs hn hm (reaches_nil.mpr ⟨rfl, rfl⟩) h halt hrest made
  rw [List.nil_append, hstart', hstart, hend', hend] at hmakes
  exact hmakes

end NodeDecl.Diff
