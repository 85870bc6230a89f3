import NodeDecl.Proofs.Diff.Patch
import NodeDecl.Proofs.Output.Comparing

/-! # Patches for generated files

Comparing a generated file with the one on disk answers a patch. For a file that is absent, the
patch makes the file. For one that is stale it does if the difference of the two texts states
their ends; if not, a heading of the patch counts lines that its hunk does not have.
-/

namespace NodeDecl
open Files Diff

theorem Layout.text_ne_empty (t : Target) (tokenModule : String) (l : Layout) :
    l.text t tokenModule ≠ "" := by
  intro h
  have hlist := congrArg String.toList h
  rw [text, Text.unlines, String.toList_ofList] at hlist
  cases t with
  | zig => simp [lines, zigLines, zigHead] at hlist
  | rust => simp [lines, rustLines, rustHead] at hlist

/-- The patch for an absent file makes the file; the one for a stale file does so exactly if the
difference states the ends of both texts, and is refused otherwise. -/
theorem SourceFile.isPatch_of_compare (d : Destination) (g : Grammar) (directory : String)
    (t : Tree) :
    (∀ patch, (ofGrammar d g).compare directory t = .ok (.absent patch) →
      IsPatch ((ofGrammar d g).pathIn directory) "" (ofGrammar d g).text patch) ∧
    ∀ patch, (ofGrammar d g).compare directory t = .ok (.stale patch) →
      ∃ old, t.readText ((ofGrammar d g).pathIn directory) = .ok old ∧ patch ≠ "" ∧
        (IsPatch ((ofGrammar d g).pathIn directory) old (ofGrammar d g).text patch ↔
          Anchored old (ofGrammar d g).text) ∧
        (¬Anchored old (ofGrammar d g).text →
          applyPatch ((ofGrammar d g).pathIn directory) old patch = none) := by
  constructor
  · intro patch h
    rw [(compare_eq_absent_iff.mp h).2]
    exact (isPatch_patch_iff _ (Layout.text_ne_empty _ _ _).symm).mpr (anchored_empty _)
  · intro patch h
    obtain ⟨old, hread, hdigest, rfl⟩ := compare_eq_stale_iff.mp h
    have hne : old ≠ (ofGrammar d g).text := fun he => hdigest (congrArg Digest.ofText he)
    exact ⟨old, hread, patch_ne_empty _ hne, isPatch_patch_iff _ hne,
      applyPatch_patch_eq_none _ hne⟩

/-- The file of a table with one variant. -/
def nodeFile : SourceFile := .ofGrammar (.standard .zig) ⟨"E", [⟨"A", [⟨"a", "T"⟩]⟩]⟩

/-- A tree in which a text stands at the place of the file. -/
def treeWith (text : String) : Tree :=
  ⟨[], [(["ast.zig", "out"], .file text.toUTF8), (["out"], .directory)]⟩

theorem readText_treeWith (text : String) :
    (treeWith text).readText (nodeFile.pathIn "out") = .ok text :=
  Tree.readText_eq_ok_iff.mpr rfl

theorem digest_nodeFile : nodeFile.digest =
    ⟨"618033e5c334b2a5024df007f286fabb2fa392898c658013acea7da8bf0fafcc"⟩ := by
  decide +kernel

theorem digest_otherLine_ne : Digest.ofText "x\n" ≠ nodeFile.digest := by
  rw [digest_nodeFile]
  decide +kernel

theorem size_linesOf_nodeFile : (linesOf nodeFile.text).size = 9 := by decide +kernel

theorem compare_treeWith {text : String} (h : Digest.ofText text ≠ nodeFile.digest) :
    nodeFile.compare "out" (treeWith text) =
      .ok (.stale (Diff.patch (nodeFile.pathIn "out") text nodeFile.text)) :=
  SourceFile.compare_eq_stale_iff.mpr ⟨text, readText_treeWith text, h, rfl⟩

/-- The last deletion is passed by an insertion that slides up, and keeps the place that it had in
the new text: the heading then counts fewer new lines than the hunk has. -/
theorem SourceFile.applyPatch_passedDeletion :
    ∃ patch, nodeFile.compare "out" (treeWith "\x7d;\nx\n") = .ok (.stale patch) ∧
      (treeWith "\x7d;\nx\n").readText (nodeFile.pathIn "out") = .ok "\x7d;\nx\n" ∧
      applyPatch (nodeFile.pathIn "out") "\x7d;\nx\n" patch = none := by
  have hdigest : Digest.ofText "\x7d;\nx\n" ≠ nodeFile.digest := by
    rw [digest_nodeFile]
    decide +kernel
  have hblocks : blocksBetween (linesOf "\x7d;\nx\n") (linesOf nodeFile.text) =
      [⟨false, 0, 0, 0, 8⟩, ⟨true, 0, 1, 8, 1⟩, ⟨false, 1, 1, 5, 0⟩] := by
    decide +kernel
  have hne : "\x7d;\nx\n" ≠ nodeFile.text := fun he => hdigest (congrArg Digest.ofText he)
  refine ⟨_, compare_treeWith hdigest, readText_treeWith _, applyPatch_patch_eq_none _ hne ?_⟩
  rintro ⟨-, hend⟩
  rw [hblocks] at hend
  have hlast := (hend _ rfl).2
  rw [size_linesOf_nodeFile] at hlast
  exact absurd hlast (by decide)

/-- A file that holds one other line is replaced as a whole. -/
theorem SourceFile.isPatch_otherLine :
    (∃ patch, nodeFile.compare "out" (.bare []) = .ok (.absent patch) ∧
      IsPatch (nodeFile.pathIn "out") "" nodeFile.text patch) ∧
    ∃ patch, nodeFile.compare "out" (treeWith "x\n") = .ok (.stale patch) ∧
      IsPatch (nodeFile.pathIn "out") "x\n" nodeFile.text patch := by
  have hblocks : blocksBetween (linesOf "x\n") (linesOf nodeFile.text) =
      [⟨false, 0, 1, 0, 9⟩] := by
    decide +kernel
  have hanchored : Anchored "x\n" nodeFile.text := by
    rw [Anchored, hblocks, size_linesOf_nodeFile]
    exact ⟨by rintro b ⟨⟩; exact ⟨rfl, rfl⟩, by rintro b ⟨⟩; exact ⟨rfl, rfl⟩⟩
  have habsent : nodeFile.compare "out" (.bare []) =
      .ok (.absent (Diff.patch (nodeFile.pathIn "out") "" nodeFile.text)) := rfl
  have hstale := compare_treeWith digest_otherLine_ne
  have h := isPatch_of_compare (.standard .zig) ⟨"E", [⟨"A", [⟨"a", "T"⟩]⟩]⟩ "out"
  obtain ⟨old, hread, -, hiff, -⟩ := (h (treeWith "x\n")).2 _ hstale
  obtain rfl : "x\n" = old := Except.ok.inj ((readText_treeWith "x\n").symm.trans hread)
  exact ⟨⟨_, habsent, (h (.bare [])).1 _ habsent⟩, _, hstale, hiff.mpr hanchored⟩

end NodeDecl
