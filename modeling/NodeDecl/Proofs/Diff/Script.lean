import NodeDecl.Diff.Script
import NodeDecl.Proofs.Diff.Standing

/-! # Scripts lead from one text to the other

Whatever the search for a split answers, the script of a window leads through the window: the
lines that are taken off at both ends are equal, and a window is split only at a point inside.
-/

namespace NodeDecl.Diff

variable {old new : Array Line}

theorem reaches_run_keep {i j n i' j' : Nat} (h : SameLines old new i j n) (hi : i + n = i')
    (hj : j + n = j') : Reaches old new i j (run .keep i j n) i' j' := by
  subst hi hj
  rw [run]
  split
  · next hn => exact ⟨by omega, by omega⟩
  · next hn => exact ⟨⟨Nat.pos_of_ne_zero hn, rfl, rfl, h⟩, rfl, rfl⟩

theorem reaches_run_delete {i j n i' : Nat} (hi : i + n = i') :
    Reaches old new i j (run .delete i j n) i' j := by
  subst hi
  rw [run]
  split
  · next hn => exact ⟨by omega, rfl⟩
  · next hn => exact ⟨⟨Nat.pos_of_ne_zero hn, rfl⟩, rfl, rfl⟩

theorem reaches_run_insert {i j n j' k : Nat} (hj : j + n = j') :
    Reaches old new i j (run .insert k j n) i j' := by
  subst hj
  rw [run]
  split
  · next hn => exact ⟨rfl, by omega⟩
  · next hn => exact ⟨⟨Nat.pos_of_ne_zero hn, rfl⟩, rfl, rfl⟩

namespace Window

/-- The window begins before it ends, in both texts. -/
def Proper (w : Window) : Prop := w.oldStart ≤ w.oldEnd ∧ w.newStart ≤ w.newEnd

/-- The script leads from the beginning of the window to its end. -/
def Leads (old new : Array Line) (w : Window) (es : List Edit) : Prop :=
  Reaches old new w.oldStart w.newStart es w.oldEnd w.newEnd

theorem head_le (old new : Array Line) (w : Window) : w.head old new ≤ w.oldSize ∧ w.head old new ≤ w.newSize :=
  Nat.le_min.mp (commonForward_le _ _ _ _ _)

theorem tail_le (old new : Array Line) (w : Window) : w.tail old new ≤ w.oldSize ∧ w.tail old new ≤ w.newSize :=
  Nat.le_min.mp (commonBackward_le _ _ _ _ _)

theorem Proper.dropHead {w : Window} (h : w.Proper) (old new : Array Line) : (w.dropHead (w.head old new)).Proper := by
  obtain ⟨ho, hn⟩ := h
  have hh := w.head_le old new
  simp only [oldSize, newSize] at hh
  constructor <;> simp only [Window.dropHead] <;> omega

theorem Proper.dropTail {w : Window} (h : w.Proper) (old new : Array Line) : (w.dropTail (w.tail old new)).Proper := by
  obtain ⟨ho, hn⟩ := h
  have ht := w.tail_le old new
  simp only [oldSize, newSize] at ht
  constructor <;> simp only [Window.dropTail] <;> omega

theorem Leads.ofDropHead {w : Window} {es : List Edit}
    (h : (w.dropHead (w.head old new)).Leads old new es) :
    w.Leads old new (run .keep w.oldStart w.newStart (w.head old new) ++ es) :=
  reaches_append.mpr ⟨_, _, reaches_run_keep (sameLines_commonForward _ _ _) rfl rfl, h⟩

theorem Leads.ofDropTail {w : Window} {es : List Edit} (hw : w.Proper)
    (h : (w.dropTail (w.tail old new)).Leads old new es) :
    w.Leads old new (es ++ run .keep (w.dropTail (w.tail old new)).oldEnd
      (w.dropTail (w.tail old new)).newEnd (w.tail old new)) := by
  obtain ⟨ho, hn⟩ := hw
  have ht := w.tail_le old new
  simp only [oldSize, newSize] at ht
  refine reaches_append.mpr ⟨_, _, h, reaches_run_keep ?_ ?_ ?_⟩
  · refine sameLines_commonBackward ?_ ?_ <;> simp only [oldSize, newSize] <;> omega
  · exact Nat.sub_add_cancel (by omega)
  · exact Nat.sub_add_cancel (by omega)

theorem leads_delete {w : Window} (h : w.Proper) (hn : w.newSize = 0) :
    w.Leads old new (run .delete w.oldStart w.newStart w.oldSize) := by
  have he : w.newStart = w.newEnd := Nat.le_antisymm h.2 (Nat.le_of_sub_eq_zero hn)
  rw [Leads, ← he]
  exact reaches_run_delete (Nat.add_sub_cancel' h.1)

theorem leads_insert {w : Window} (h : w.Proper) (ho : w.oldSize = 0) :
    w.Leads old new (run .insert w.oldStart w.newStart w.newSize) := by
  have he : w.oldStart = w.oldEnd := Nat.le_antisymm h.1 (Nat.le_of_sub_eq_zero ho)
  rw [Leads, ← he]
  exact reaches_run_insert (Nat.add_sub_cancel' h.2)

theorem leads_replace {w : Window} (h : w.Proper) :
    w.Leads old new (run .delete w.oldStart w.newStart w.oldSize ++
      run .insert w.oldStart w.newStart w.newSize) :=
  reaches_append.mpr ⟨w.oldEnd, w.newStart, reaches_run_delete (Nat.add_sub_cancel' h.1),
    reaches_run_insert (Nat.add_sub_cancel' h.2)⟩

theorem Proper.upTo {w : Window} {p : Nat × Nat} (h : w.Divides p) : (w.upTo p).Proper :=
  ⟨h.1, h.2.2.1⟩

theorem Proper.onFrom {w : Window} {p : Nat × Nat} (h : w.Divides p) : (w.onFrom p).Proper :=
  ⟨h.2.1, h.2.2.2.1⟩

theorem Leads.ofDivides {w : Window} {p : Nat × Nat} {es fs : List Edit}
    (he : (w.upTo p).Leads old new es) (hf : (w.onFrom p).Leads old new fs) :
    w.Leads old new (es ++ fs) :=
  reaches_append.mpr ⟨p.1, p.2, he, hf⟩

theorem leads_script {w : Window} (hw : w.Proper) (f : Frontier) :
    w.Leads old new (w.script old new f).2 := by
  induction hs : w.size using Nat.strongRecOn generalizing w f with
  | ind size ih =>
    subst hs
    rw [script, List.append_assoc]
    apply Leads.ofDropHead
    have hbody : (w.dropHead (w.head old new)).Proper := hw.dropHead old new
    apply Leads.ofDropTail hbody
    have hmiddle := hbody.dropTail old new
    have hsize := Nat.le_trans ((w.dropHead (w.head old new)).size_dropTail_le
      ((w.dropHead (w.head old new)).tail old new)) (w.size_dropHead_le _)
    -- What was taken off matters no more: the middle is only known to be smaller.
    generalize (w.dropHead (w.head old new)).dropTail ((w.dropHead (w.head old new)).tail old new) =
      m at hmiddle hsize ⊢
    split
    · exact leads_delete hmiddle (by assumption)
    · split
      · exact leads_insert hmiddle (by assumption)
      · split
        · split
          · next hd =>
            refine Leads.ofDivides (ih _ ?_ (.upTo hd) _ rfl) (ih _ ?_ (.onFrom hd) _ rfl)
            · exact Nat.lt_of_lt_of_le (size_upTo_lt hd) hsize
            · exact Nat.lt_of_lt_of_le (size_onFrom_lt hd) hsize
          · exact leads_replace hmiddle
        · exact leads_replace hmiddle

end Window

/-- The script leads from the beginning to the end of both texts. -/
theorem reaches_script (old new : Array Line) :
    Reaches old new 0 0 (script old new) old.size new.size :=
  Window.leads_script (w := ⟨0, old.size, 0, new.size⟩) ⟨Nat.zero_le _, Nat.zero_le _⟩ _

end NodeDecl.Diff
