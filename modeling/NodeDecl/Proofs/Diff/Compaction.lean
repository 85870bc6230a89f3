import NodeDecl.Diff.Compaction
import NodeDecl.Proofs.Diff.Standing

/-! # Compaction keeps what a script does

Each move of a run replaces two neighbouring runs by runs that lead between the same points. So
a compacted script leads from one text to the other like the script it is made from.
-/

namespace NodeDecl.Diff

variable {old new : Array Line}

theorem reaches_merge {i j i' j' : Nat} {prev e : Edit} (hk : e.kind ≠ .keep)
    (he : prev.kind = e.kind) (h : Reaches old new i j [prev, e] i' j') :
    Reaches old new i j [prev.lengthen e.length] i' j' := by
  obtain ⟨kind, a, b, m⟩ := prev
  obtain ⟨kind', a', b', n⟩ := e
  cases he
  cases kind with
  | keep => exact absurd rfl hk
  | delete =>
    simp only [Edit.lengthen, reaches_delete_cons, reaches_nil] at h ⊢
    omega
  | insert =>
    simp only [Edit.lengthen, reaches_insert_cons, reaches_nil] at h ⊢
    omega

theorem reaches_merge_keep {i j i' j' a b n : Nat} {prev : Edit} (hk : prev.kind = .keep)
    (h : Reaches old new i j [prev, ⟨.keep, a, b, n⟩] i' j') :
    Reaches old new i j [prev.lengthen n] i' j' := by
  obtain ⟨kind, a', b', m⟩ := prev
  cases hk
  simp only [Edit.lengthen, reaches_keep_cons, reaches_nil] at h ⊢
  obtain ⟨⟨hm, ha, hb, hs⟩, ⟨hn, -, -, hs'⟩, hi, hj⟩ := h
  exact ⟨⟨by omega, ha, hb, hs.add hs'⟩, by omega, by omega⟩

theorem reaches_swap {i j i' j' : Nat} {prev e : Edit} (hp : prev.kind ≠ .keep)
    (hk : e.kind ≠ .keep) (hne : prev.kind ≠ e.kind) (h : Reaches old new i j [prev, e] i' j') :
    Reaches old new i j [e, prev] i' j' := by
  obtain ⟨kind, a, b, m⟩ := prev
  obtain ⟨kind', a', b', n⟩ := e
  cases kind <;> cases kind' <;> first
    | contradiction
    | simp only [reaches_insert_cons, reaches_delete_cons, reaches_nil] at h ⊢
      omega

theorem insert_of_slideUp_pos {prev e : Edit} (hk : e.kind ≠ .keep)
    (hn : 0 < slideUp old new prev e) : e.kind = .insert := by
  obtain ⟨kind, a, b, m⟩ := e
  cases kind with
  | keep => exact absurd rfl hk
  | delete => simp [slideUp, Edit.newLength, commonBackward] at hn
  | insert => rfl

theorem insert_of_slideDown_pos {next e : Edit} (hk : e.kind ≠ .keep)
    (hn : 0 < slideDown old new next e) : e.kind = .insert := by
  obtain ⟨kind, a, b, m⟩ := e
  cases kind with
  | keep => exact absurd rfl hk
  | delete => simp [slideDown, Edit.newLength, commonForward] at hn
  | insert => rfl

/-- The run as a list of one, or of none if it has no lines. -/
abbrev unlessEmpty (e : Edit) : List Edit := if e.length = 0 then [] else [e]

theorem reaches_unlessEmpty_keep {i j i' j' a b n : Nat} {es : List Edit} (ha : a = i) (hb : b = j)
    (hs : SameLines old new i j n) (h : Reaches old new (i + n) (j + n) es i' j') :
    Reaches old new i j (unlessEmpty ⟨.keep, a, b, n⟩ ++ es) i' j' := by
  by_cases hn : n = 0
  · subst hn
    exact h
  · rw [unlessEmpty, if_neg hn]
    exact ⟨⟨Nat.pos_of_ne_zero hn, ha, hb, hs⟩, h⟩

theorem reaches_moveUp {i j i' j' n : Nat} {prev e : Edit} (hp : prev.kind = .keep)
    (hk : e.kind ≠ .keep) (he : slideUp old new prev e = n) (hn : 0 < n)
    (h : Reaches old new i j [prev, e] i' j') :
    Reaches old new i j (unlessEmpty (prev.shorten n) ++
      [e.moveUp n, ⟨.keep, prev.oldEnd - n, e.newEnd - n, n⟩]) i' j' := by
  have hins := insert_of_slideUp_pos hk (he ▸ hn)
  obtain ⟨kind, a, b, m⟩ := prev
  obtain ⟨kind', a', b', l⟩ := e
  cases hp
  cases hins
  simp only [reaches_keep_cons, reaches_insert_cons, reaches_nil] at h
  obtain ⟨⟨hm, rfl, rfl, hs⟩, ⟨hl, rfl⟩, rfl, rfl⟩ := h
  have hle : n ≤ min m l := he ▸ commonBackward_le _ _ _ _ _
  have hs' : SameLines old new (a + m - n) (b + m + l - n) n := by
    rw [← he]
    refine sameLines_commonBackward ?_ ?_
    · exact Nat.le_trans (Nat.min_le_left m l) (Nat.le_add_left m a)
    · exact Nat.le_trans (Nat.min_le_right m l) (Nat.le_add_left l (b + m))
  refine reaches_unlessEmpty_keep rfl rfl (hs.take (Nat.sub_le m n)) ?_
  rw [Edit.oldEnd_keep, Edit.newEnd_insert]
  rw [show a + m - n = a + (m - n) by omega,
    show b + m + l - n = b + (m - n) + l by omega] at hs' ⊢
  refine ⟨⟨hl, ?_⟩, ⟨hn, rfl, rfl, hs'⟩, ?_, ?_⟩
  · change b + m - n = b + (m - n)
    omega
  · change a + (m - n) + n = a + m
    omega
  · change b + (m - n) + l + n = b + m + l
    omega

theorem reaches_moveDown {i j i' j' n : Nat} {next e : Edit} (hp : next.kind = .keep)
    (hk : e.kind ≠ .keep) (he : slideDown old new next e = n) (hn : 0 < n)
    (h : Reaches old new i j [e, next] i' j') :
    Reaches old new i j ([⟨.keep, next.old, e.new, n⟩, e.moveDown n] ++
      unlessEmpty ((next.moveDown n).shorten n)) i' j' := by
  have hins := insert_of_slideDown_pos hk (he ▸ hn)
  obtain ⟨kind, a, b, m⟩ := next
  obtain ⟨kind', a', b', l⟩ := e
  cases hp
  cases hins
  simp only [reaches_keep_cons, reaches_insert_cons, reaches_nil] at h
  obtain ⟨⟨hl, rfl⟩, ⟨hm, rfl, rfl, hs⟩, rfl, rfl⟩ := h
  have hle : n ≤ min m l := he ▸ commonForward_le _ _ _ _ _
  have hs' : SameLines old new a b' n := he ▸ sameLines_commonForward _ _ _
  refine ⟨⟨hn, rfl, rfl, hs'⟩, ⟨hl, rfl⟩, ?_⟩
  have hrest := hs.drop n
  rw [show b' + l + n = b' + n + l by omega] at hrest
  change Reaches old new (a + n) (b' + n + l) (unlessEmpty ⟨.keep, a + n, b' + l + n, m - n⟩)
    (a + m) (b' + l + m)
  rw [← List.append_nil (unlessEmpty _)]
  exact reaches_unlessEmpty_keep rfl (by omega) hrest ⟨by omega, by omega⟩

theorem reaches_keepBelow {i j i' j' n : Nat} {prev e : Edit} {after : List Edit}
    (h : Reaches old new i j (⟨.keep, prev.oldEnd - n, e.newEnd - n, n⟩ :: after) i' j') :
    Reaches old new i j (keepBelow prev e n after) i' j' := by
  cases after with
  | nil => exact h
  | cons next rest =>
    rw [keepBelow]
    split
    · next hk =>
      obtain ⟨kind, a, b, m⟩ := next
      cases hk
      simp only [reaches_keep_cons] at h
      obtain ⟨⟨hn, ha, hb, hs⟩, ⟨hm, rfl, rfl, hs'⟩, h⟩ := h
      change Reaches old new i j (⟨.keep, i + n - n, j + n - n, m + n⟩ :: rest) i' j'
      rw [Nat.add_sub_cancel, Nat.add_sub_cancel, Nat.add_comm m n, reaches_keep_cons,
        ← Nat.add_assoc, ← Nat.add_assoc]
      exact ⟨⟨Nat.add_pos_left hn m, rfl, rfl, hs.add hs'⟩, h⟩
    · exact h

theorem reaches_keepAbove {i j i' j' n : Nat} {next e : Edit} {before : List Edit}
    (h : Reaches old new i j (before.reverse ++ [⟨.keep, next.old, e.new, n⟩]) i' j') :
    Reaches old new i j (keepAbove next e n before).reverse i' j' := by
  cases before with
  | nil => exact h
  | cons prev rest =>
    rw [keepAbove]
    split
    · next hk =>
      rw [List.reverse_cons, List.append_assoc] at h
      rw [List.reverse_cons]
      obtain ⟨p, q, hrest, h⟩ := reaches_append.mp h
      exact reaches_append.mpr ⟨p, q, hrest, reaches_merge_keep hk h⟩
    · rw [List.reverse_cons]
      exact h

/-- The script in which the cursor stands. -/
def Cursor.edits (c : Cursor) : List Edit := c.before.reverse ++ c.current :: c.after

theorem reverse_unlessEmpty (e : Edit) (before : List Edit) :
    (if e.length = 0 then before else e :: before).reverse =
      before.reverse ++ unlessEmpty e := by
  rw [unlessEmpty]
  split
  · rw [List.append_nil]
  · rw [List.reverse_cons]

theorem unlessEmpty_append (e : Edit) (after : List Edit) :
    unlessEmpty e ++ after = if e.length = 0 then after else e :: after := by
  rw [unlessEmpty]
  split <;> rfl

theorem Reaches.stepBefore {i j i' j' : Nat} {prev e : Edit} {before fs after : List Edit}
    (h : Reaches old new i j ((prev :: before).reverse ++ e :: after) i' j')
    (hr : ∀ {p q p' q'}, Reaches old new p q [prev, e] p' q' → Reaches old new p q fs p' q') :
    Reaches old new i j (before.reverse ++ (fs ++ after)) i' j' := by
  have hsplit : Reaches old new i j (before.reverse ++ [prev, e] ++ after) i' j' := by
    rw [List.reverse_cons, List.append_assoc] at h
    rwa [List.append_assoc]
  rw [← List.append_assoc]
  exact hsplit.replace hr

theorem Reaches.stepAfter {i j i' j' : Nat} {next e : Edit} {before fs after : List Edit}
    (h : Reaches old new i j (before.reverse ++ e :: next :: after) i' j')
    (hr : ∀ {p q p' q'}, Reaches old new p q [e, next] p' q' → Reaches old new p q fs p' q') :
    Reaches old new i j (before.reverse ++ (fs ++ after)) i' j' := by
  have hsplit : Reaches old new i j (before.reverse ++ [e, next] ++ after) i' j' := by
    rwa [List.append_assoc]
  rw [← List.append_assoc]
  exact hsplit.replace hr

theorem slideRunUp_spec {before after : List Edit} {e : Edit} (hk : e.kind ≠ .keep)
    {i j i' j' : Nat} (h : Reaches old new i j (before.reverse ++ e :: after) i' j') :
    (slideRunUp old new before e after).current.kind = e.kind ∧
      Reaches old new i j (slideRunUp old new before e after).edits i' j' := by
  fun_induction slideRunUp old new before e after with
  | case1 e after => exact ⟨rfl, h⟩
  | case2 prev before e after hp n hn rest ih =>
    refine ih hk ?_
    have hm := h.stepBefore (reaches_moveUp hp hk rfl hn.1)
    rw [List.append_assoc, ← List.append_assoc] at hm
    rw [dite_eq_ite, reverse_unlessEmpty]
    exact hm.replaceEnd fun he => ⟨he.1, reaches_keepBelow he.2⟩
  | case3 prev before e after hp n hn hz ih =>
    -- A run of a script has lines.
    obtain ⟨p, q, -, hs⟩ := reaches_append.mp (List.append_assoc .. ▸ List.reverse_cons .. ▸ h)
    exact absurd hz (Nat.ne_of_gt hs.1.1)
  | case4 => exact ⟨rfl, h⟩
  | case5 prev before e after hp he ih =>
    obtain ⟨hk', hr⟩ := ih hp (h.stepBefore (reaches_merge hk he))
    exact ⟨hk'.trans he, hr⟩
  | case6 prev before e after hp he ih =>
    exact ih hk (h.stepBefore (reaches_swap hp hk he))

theorem slideRunDown_spec {before after : List Edit} {e : Edit} (hk : e.kind ≠ .keep)
    {i j i' j' : Nat} (h : Reaches old new i j (before.reverse ++ e :: after) i' j') :
    Reaches old new i j (slideRunDown old new before e after).edits i' j' := by
  fun_induction slideRunDown old new before e after with
  | case1 before e => exact h
  | case2 before e next after hp n hn rest ih =>
    refine ih hk ?_
    have hm : Reaches old new i j (before.reverse ++ ([⟨.keep, next.old, e.new, n⟩] ++
        e.moveDown n :: (unlessEmpty rest ++ after))) i' j' :=
      h.stepAfter (reaches_moveDown hp hk rfl hn.1)
    rw [← List.append_assoc] at hm
    obtain ⟨p, q, hb, hr⟩ := reaches_append.mp hm
    rw [dite_eq_ite, ← unlessEmpty_append]
    exact reaches_append.mpr ⟨p, q, reaches_keepAbove hb, hr⟩
  | case3 before e next after hp n hn hz ih =>
    obtain ⟨p, q, -, hs⟩ := reaches_append.mp h
    exact absurd hz (Nat.ne_of_gt hs.2.1.1)
  | case4 => exact h
  | case5 before e next after hp he ih =>
    exact ih hk (h.stepAfter (reaches_merge (he ▸ hp) he.symm))
  | case6 before e next after hp he ih =>
    apply ih hk
    rw [List.reverse_cons, List.append_assoc]
    exact h.stepAfter (reaches_swap hk hp (Ne.symm he))

theorem reaches_compactFrom {kind : Kind} (hk : kind ≠ .keep) {count : Nat}
    {before after : List Edit} {i j i' j' : Nat}
    (h : Reaches old new i j (before.reverse ++ after) i' j') :
    Reaches old new i j (compactFrom old new kind count before after) i' j' := by
  induction count generalizing before after with
  | zero => exact h
  | succ count ih =>
    cases after with
    | nil =>
      rw [List.append_nil] at h
      exact h
    | cons e after =>
      rw [compactFrom]
      split
      · next he =>
        subst he
        obtain ⟨hk', hup⟩ := slideRunUp_spec hk h
        have hdown := slideRunDown_spec (hk'.symm ▸ hk) hup
        apply ih
        rw [List.reverse_cons, List.append_assoc]
        exact hdown
      · apply ih
        rw [List.reverse_cons, List.append_assoc]
        exact h

/-- A compacted script leads between the same points as the script. -/
theorem reaches_compact {es : List Edit} {i j i' j' : Nat} (h : Reaches old new i j es i' j') :
    Reaches old new i j (compact old new es) i' j' :=
  reaches_compactFrom Kind.noConfusion (reaches_compactFrom Kind.noConfusion h)

end NodeDecl.Diff
