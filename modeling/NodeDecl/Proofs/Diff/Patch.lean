import NodeDecl.Proofs.Diff.Compaction
import NodeDecl.Proofs.Diff.Grouping
import NodeDecl.Proofs.Diff.Script

/-! # A patch makes the new text

The patch between two texts, applied to the old one, is accepted if and only if the difference
states the ends of both texts, and then it makes the new text. A pure deletion at an end that
compaction has passed states a wrong line of the new text, a pure insertion a wrong line of the
old one.
-/

namespace NodeDecl.Diff

/-- The block has lines. -/
def Block.HasLines (b : Block) : Prop := 0 < b.oldLength + b.newLength

theorem Block.HasLines.firstLines {b : Block} (h : b.HasLines) :
    (b.firstLines context).HasLines := by
  have hcontext : 0 < context := by decide
  simp only [HasLines, Block.firstLines] at h ⊢
  omega

theorem Block.HasLines.lastLines {b : Block} (h : b.HasLines) :
    (b.lastLines context).HasLines := by
  have hcontext : 0 < context := by decide
  simp only [HasLines, Block.lastLines] at h ⊢
  omega

theorem Reaches.hasLines {old new : Array Line} {i j i' j' : Nat} {bs : List Block}
    (h : Reaches old new i j bs i' j') : ∀ b ∈ bs, b.HasLines := by
  induction bs generalizing i j with
  | nil => nofun
  | cons b bs ih =>
    obtain ⟨hb, hbs⟩ := reaches_block_cons.mp h
    exact List.forall_mem_cons.mpr ⟨hb.1, ih hbs⟩

theorem hasLines_trimFirst {bs : List Block} (h : ∀ b ∈ bs, b.HasLines) :
    ∀ b ∈ trimFirst bs, b.HasLines := by
  cases bs with
  | nil => exact h
  | cons b bs =>
    rw [List.forall_mem_cons] at h
    refine List.forall_mem_cons.mpr ⟨?_, h.2⟩
    split
    · exact h.1.lastLines
    · exact h.1

theorem hasLines_trimLast {bs : List Block} (h : ∀ b ∈ bs, b.HasLines) :
    ∀ b ∈ trimLast bs, b.HasLines := by
  obtain rfl | ⟨bs, b, rfl⟩ := bs.eq_nil_or_concat'
  · exact h
  · rw [List.forall_mem_append, List.forall_mem_singleton] at h
    rw [trimLast_concat, List.forall_mem_append, List.forall_mem_singleton]
    refine ⟨h.1, ?_⟩
    split
    · exact h.2.firstLines
    · exact h.2

theorem hasLines_groupFrom {pending bs : List Block} (hp : ∀ b ∈ pending, b.HasLines)
    (hb : ∀ b ∈ bs, b.HasLines) : ∀ h ∈ groupFrom pending bs, h ≠ [] ∧ ∀ b ∈ h, b.HasLines := by
  induction bs generalizing pending with
  | nil =>
    cases pending with
    | nil =>
      intro h hh
      cases hh
    | cons b bs =>
      cases bs with
      | nil =>
        rw [groupFrom]
        split
        · intro h hh
          cases hh
        · exact List.forall_mem_singleton.mpr ⟨List.cons_ne_nil _ _, hp⟩
      | cons c bs => exact List.forall_mem_singleton.mpr ⟨List.cons_ne_nil _ _, hp⟩
  | cons b bs ih =>
    rw [List.forall_mem_cons] at hb
    rw [groupFrom]
    split
    · refine List.forall_mem_cons.mpr ⟨⟨by simp, ?_⟩, ih ?_ hb.2⟩
      · exact List.forall_mem_append.mpr ⟨hp, List.forall_mem_singleton.mpr hb.1.firstLines⟩
      · exact List.forall_mem_singleton.mpr hb.1.lastLines
    · exact ih (List.forall_mem_append.mpr ⟨hp, List.forall_mem_singleton.mpr hb.1⟩) hb.2

/-- The lines of a text. -/
abbrev linesOf (text : String) : Array Line := (splitLines text.toList).toArray

theorem linesOf_injective {a b : String} (h : (linesOf a).toList = (linesOf b).toList) : a = b := by
  rw [List.toList_toArray, List.toList_toArray] at h
  rw [← String.toList_inj, ← flatten_splitLines a.toList, h, flatten_splitLines]

/-- The blocks of the difference between two texts. -/
def blocksBetween (old new : Array Line) : List Block := blocks (compact old new (script old new))

/-- The difference of two texts states the places where both begin and where both end. -/
def Anchored (old new : String) : Prop :=
  StartsAt (blocksBetween (linesOf old) (linesOf new)) 0 0 ∧
    EndsAt (blocksBetween (linesOf old) (linesOf new)) (linesOf old).size (linesOf new).size

theorem reaches_blocksBetween (old new : Array Line) :
    Reaches old new 0 0 (blocksBetween old new) old.size new.size ∧
      Alternating (blocksBetween old new) :=
  reaches_blocks (reaches_compact (reaches_script old new))

theorem hasLines_hunksBetween (old new : Array Line) :
    ∀ h ∈ hunksBetween old new, h ≠ [] ∧ ∀ b ∈ h, b.HasLines :=
  hasLines_groupFrom nofun
    (hasLines_trimLast (hasLines_trimFirst (reaches_blocksBetween old new).1.hasLines))

theorem applyChanges_hunksBetween (old new : String) (made : List Line) :
    applyChanges 0 0 (linesOf old).toList ((hunksBetween (linesOf old) (linesOf new)).map
        (Hunk.change (linesOf old) (linesOf new))) = some made ↔
      Anchored old new ∧ made = (linesOf new).toList := by
  obtain ⟨hr, halt⟩ := reaches_blocksBetween (linesOf old) (linesOf new)
  rw [Anchored, and_assoc]
  exact applyChanges_hunks hr halt

theorem hunksBetween_ne_nil {old new : String} (h : old ≠ new) :
    hunksBetween (linesOf old) (linesOf new) ≠ [] := by
  intro hnil
  have happly := applyChanges_hunksBetween old new (linesOf old).toList
  rw [hnil] at happly
  exact h (linesOf_injective (happly.mp rfl).2)

/-- The lines over the hunks of a patch. -/
abbrev labelLines (label : String) : List Char := ("--- " ++ label ++ "\n+++ generated\n").toList

theorem patch_eq (label : String) {old new : String} (h : old ≠ new) :
    patch label old new = .ofList (labelLines label ++
      (hunksBetween (linesOf old) (linesOf new)).flatMap
        (Hunk.text (linesOf old) (linesOf new))) := by
  have hne := hunksBetween_ne_nil h
  rw [patch]
  split
  · next hnil => exact absurd hnil hne
  · rfl

theorem patch_ne_empty (label : String) {old new : String} (h : old ≠ new) :
    patch label old new ≠ "" := by
  rw [patch_eq label h]
  intro he
  have htext := congrArg String.toList he
  rw [String.toList_ofList] at htext
  simp at htext

theorem readChanges_hunksBetween (old new : String) :
    readChanges (withoutNotes (splitLines ((hunksBetween (linesOf old) (linesOf new)).flatMap
        (Hunk.text (linesOf old) (linesOf new))))) =
      some ((hunksBetween (linesOf old) (linesOf new)).map
        (Hunk.change (linesOf old) (linesOf new))) := by
  have hlines := hasLines_hunksBetween (linesOf old) (linesOf new)
  have hisLine : ∀ text : String, ∀ line ∈ (linesOf text).toList, IsLine line :=
    fun text => isLine_of_mem_splitLines
  generalize hunksBetween (linesOf old) (linesOf new) = hs at hlines ⊢
  have htext : hs.flatMap (Hunk.text (linesOf old) (linesOf new)) =
      (hs.flatMap (Hunk.lines (linesOf old) (linesOf new))).flatMap endLine := by
    rw [List.flatMap_assoc]
    exact List.flatMap_congr fun h hh =>
      Hunk.text_eq (hisLine old) (hisLine new) (hlines h hh).1 (hlines h hh).2
  rw [htext, withoutNotes_flatMap_endLine, readChanges_hunkLines fun h hh => (hlines h hh).1]
  intro line hl
  obtain ⟨h, hh, hl⟩ := List.mem_flatMap.mp hl
  exact shown_of_mem_hunkLines (hisLine old) (hisLine new) (hlines h hh).1 line hl

theorem readPatch_patch (label : String) {old new : String} (h : old ≠ new) :
    readPatch label (patch label old new) = some ((hunksBetween (linesOf old) (linesOf new)).map
      (Hunk.change (linesOf old) (linesOf new))) := by
  rw [patch_eq label h, readPatch, String.toList_ofList, if_pos, List.drop_left,
    readChanges_hunksBetween]
  exact List.isPrefixOf_iff_prefix.mpr (List.prefix_append _ _)

/-- The patch between two texts makes the new text of the old one, unless the difference misses
an end of a text: then it is refused. -/
theorem applyPatch_patch (label : String) {old new : String} (h : old ≠ new) (made : String) :
    applyPatch label old (patch label old new) = some made ↔ Anchored old new ∧ made = new := by
  have happly := applyChanges_hunksBetween old new
  have hnew : String.ofList (linesOf new).toList.flatten = new := by
    rw [List.toList_toArray, flatten_splitLines, String.ofList_toList]
  rw [applyPatch, readPatch_patch label h, Option.map_eq_some_iff]
  constructor
  · rintro ⟨lines, hlines, rfl⟩
    obtain ⟨hanchored, rfl⟩ := (happly lines).mp hlines
    exact ⟨hanchored, hnew⟩
  · rintro ⟨hanchored, rfl⟩
    exact ⟨_, (happly _).mpr ⟨hanchored, rfl⟩, hnew⟩

theorem applyPatch_patch_eq_none (label : String) {old new : String} (h : old ≠ new)
    (hn : ¬Anchored old new) : applyPatch label old (patch label old new) = none := by
  cases hmade : applyPatch label old (patch label old new) with
  | none => rfl
  | some made => exact absurd ((applyPatch_patch label h made).mp hmade).1 hn

/-- Each kept or deleted line of an accepted patch is the old line at the place that is stated. -/
theorem oldLines_of_applyPatch {label old patch made : String} {cs : List Change}
    (hread : readPatch label patch = some cs) (h : applyPatch label old patch = some made) :
    ∀ c ∈ cs, oldLines c.lines = slice (linesOf old) c.old.before c.old.length := by
  rw [applyPatch, hread] at h
  obtain ⟨lines, happly, -⟩ := Option.map_eq_some_iff.mp h
  exact oldLines_of_applyChanges (p := 0) (q := 0) happly

/-- The patch is not empty, is accepted by the old text, in which its kept and deleted lines stand
at the places that it states, and makes the new text. -/
structure IsPatch (label old new patch : String) : Prop where
  ne_empty : patch ≠ ""
  applies : applyPatch label old patch = some new
  states : ∃ cs, readPatch label patch = some cs ∧
    ∀ c ∈ cs, oldLines c.lines = slice (linesOf old) c.old.before c.old.length

theorem isPatch_patch_iff (label : String) {old new : String} (h : old ≠ new) :
    IsPatch label old new (patch label old new) ↔ Anchored old new := by
  constructor
  · intro hp
    exact ((applyPatch_patch label h new).mp hp.applies).1
  · intro hanchored
    have happly := (applyPatch_patch label h new).mpr ⟨hanchored, rfl⟩
    have hread := readPatch_patch label h
    exact ⟨patch_ne_empty label h, happly, _, hread, oldLines_of_applyPatch hread happly⟩

theorem Window.script_empty (new : Array Line) (m : Nat) (f : Frontier) :
    (Window.script #[] new ⟨0, 0, 0, m⟩ f).2 = run .insert 0 0 m := by
  have hhead : Window.head ⟨0, 0, 0, m⟩ #[] new = 0 :=
    Nat.le_zero.mp (Window.head_le #[] new ⟨0, 0, 0, m⟩).1
  have htail : Window.tail ⟨0, 0, 0, m⟩ #[] new = 0 :=
    Nat.le_zero.mp (Window.tail_le #[] new ⟨0, 0, 0, m⟩).1
  rw [script]
  cases m <;> simp [hhead, dropHead, htail, dropTail, newSize, oldSize, run]

theorem compactFrom_single (old new : Array Line) (kind : Kind) (count : Nat) (e : Edit) :
    compactFrom old new kind count [] [e] = [e] := by
  cases count with
  | zero => rfl
  | succ count => cases count <;> simp [compactFrom, slideRunUp, slideRunDown]

/-- From an empty text, the script is one insertion, which nothing passes. -/
theorem anchored_empty (new : String) : Anchored "" new := by
  have hlines : linesOf "" = #[] := rfl
  rw [Anchored, hlines, blocksBetween, script, Array.size_empty, Window.script_empty, run]
  split
  · constructor <;> rintro b ⟨⟩
  · have hblocks : ∀ n, blocks [⟨.insert, 0, 0, n⟩] = [⟨false, 0, 0, 0, n⟩] := fun n => rfl
    rw [compact, compactFrom_single, compactFrom_single, hblocks]
    constructor
    · rintro b ⟨⟩
      exact ⟨rfl, rfl⟩
    · intro b hb
      rw [List.getLast?_singleton] at hb
      cases hb
      exact ⟨rfl, Nat.zero_add _⟩

end NodeDecl.Diff
