import NodeDecl.Proofs.Output.Drift
import NodeDecl.Proofs.Output.Runs
import NodeDecl.Proofs.Output.Saving

/-! # What a comparison finds

A file is absent if nothing is at its path, current if its own text is there, stale if another text
is, and in every other case the comparison fails for the path. A file that was saved is current,
wherever its path leads.
-/

namespace NodeDecl.SourceFile
open Files

theorem digest_ofGrammar (d : Destination) (g : Grammar) :
    (ofGrammar d g).digest = Digest.ofText (ofGrammar d g).text := rfl

/-- No other text that stands at the path has the digest of the text of the file. -/
def Distinguished (f : SourceFile) (directory : String) (t : Tree) : Prop :=
  ∀ old, t.readText (f.pathIn directory) = .ok old → Digest.ofText old = Digest.ofText f.text →
    old = f.text

/-- A comparison changes nothing, and what reading the path of the file gives decides its outcome:
nothing there, another reason not to read a text, the text of the file, another text. The last two
are told apart by their digests. A file that was saved is current. -/
theorem compare_outcome (d : Destination) (g : Grammar) (directory : String) (t : Tree) :
    (Call.compare (ofGrammar d g) directory).after t = t ∧
    (∀ patch, (ofGrammar d g).compare directory t = .ok (.absent patch) ↔
      t.read ((ofGrammar d g).pathIn directory) = .error .notFound ∧
        patch = Diff.patch ((ofGrammar d g).pathIn directory) "" (ofGrammar d g).text) ∧
    (∀ failure, (ofGrammar d g).compare directory t = .error failure ↔
      ∃ cause, failure = .files ((ofGrammar d g).pathIn directory) cause ∧
        (cause ≠ .notFound ∧ t.read ((ofGrammar d g).pathIn directory) = .error cause ∨
          cause = .notUtf8 ∧ ∃ bytes, t.read ((ofGrammar d g).pathIn directory) = .ok bytes ∧
            ∀ text : String, bytes ≠ text.toUTF8)) ∧
    ((ofGrammar d g).Distinguished directory t →
      ((ofGrammar d g).compare directory t = .ok .current ↔
        t.read ((ofGrammar d g).pathIn directory) = .ok (ofGrammar d g).text.toUTF8) ∧
      ∀ patch, (ofGrammar d g).compare directory t = .ok (.stale patch) ↔
        ∃ old : String, t.read ((ofGrammar d g).pathIn directory) = .ok old.toUTF8 ∧
          old ≠ (ofGrammar d g).text ∧
            patch = Diff.patch ((ofGrammar d g).pathIn directory) old (ofGrammar d g).text) ∧
    ∀ u path, (ofGrammar d g).save directory t = (u, .ok path) →
      path = (ofGrammar d g).pathIn directory ∧
        (ofGrammar d g).compare directory u = .ok .current := by
  refine ⟨rfl, fun patch => compare_eq_absent_iff, fun failure => ?_, fun hdistinguished => ?_,
    fun u path h => ⟨(save_eq_ok_iff.mp h).1, compare_of_save (digest_ofGrammar d g) h⟩⟩
  · simp only [compare_eq_error_iff, Tree.readText_eq_error_iff]
    refine exists_congr fun cause => and_congr_right' ?_
    constructor
    · rintro ⟨hcause, hread | hread⟩
      · exact .inl ⟨hcause, hread⟩
      · exact .inr hread
    · rintro (⟨hcause, hread⟩ | ⟨rfl, hread⟩)
      · exact ⟨hcause, .inl hread⟩
      · exact ⟨nofun, .inr ⟨rfl, hread⟩⟩
  · have hsame {old : String} (hread : t.readText ((ofGrammar d g).pathIn directory) = .ok old) :
        Digest.ofText old = (ofGrammar d g).digest ↔ old = (ofGrammar d g).text :=
      ⟨hdistinguished old hread, fun h => by rw [h, digest_ofGrammar]⟩
    constructor
    · rw [compare_eq_current_iff, ← Tree.readText_eq_ok_iff]
      constructor
      · rintro ⟨old, hread, h⟩
        rw [hread, (hsame hread).mp h]
      · exact fun hread => ⟨_, hread, rfl⟩
    · intro patch
      rw [compare_eq_stale_iff]
      simp only [← Tree.readText_eq_ok_iff]
      refine exists_congr fun old => and_congr_right fun hread => ?_
      rw [ne_eq, hsame hread]

/-- A file whose name leads out of its directory and back. -/
def roundaboutFile : SourceFile :=
  .ofGrammar ⟨.zig, "scanner.zig", "../out/ast.zig"⟩ ⟨"E", [⟨"A", [⟨"a", "T"⟩]⟩]⟩

theorem compare_outcome_otherLine :
    roundaboutFile.Distinguished "out" (treeWith "x\n") ∧
      (∃ patch, roundaboutFile.compare "out" (treeWith "x\n") = .ok (.stale patch)) ∧
      ∃ u, roundaboutFile.save "out" (treeWith "x\n") = (u, .ok "out/../out/ast.zig") ∧
        roundaboutFile.compare "out" u = .ok .current := by
  have hread : (treeWith "x\n").read (roundaboutFile.pathIn "out") = .ok "x\n".toUTF8 := rfl
  have htext : roundaboutFile.text = nodeFile.text := rfl
  have hnode : nodeFile.digest = Digest.ofText nodeFile.text := digest_ofGrammar _ _
  have hdigest : Digest.ofText "x\n" ≠ Digest.ofText roundaboutFile.text := by
    rw [htext, ← hnode]
    exact digest_otherLine_ne
  have hne : "x\n" ≠ roundaboutFile.text := fun h => hdigest (congrArg Digest.ofText h)
  have hdistinguished : roundaboutFile.Distinguished "out" (treeWith "x\n") := by
    intro old hold h
    rw [Tree.readText_eq_ok_iff.mpr hread] at hold
    cases hold
    exact absurd h hdigest
  obtain ⟨-, -, -, hpresent, hsaved⟩ :=
    compare_outcome ⟨.zig, "scanner.zig", "../out/ast.zig"⟩ ⟨"E", [⟨"A", [⟨"a", "T"⟩]⟩]⟩ "out"
      (treeWith "x\n")
  have hsave : roundaboutFile.save "out" (treeWith "x\n") =
      ((treeWith "x\n").set ["ast.zig", "out"] (.file roundaboutFile.text.toUTF8),
        .ok "out/../out/ast.zig") := rfl
  exact ⟨hdistinguished, ⟨_, ((hpresent hdistinguished).2 _).mpr ⟨_, hread, hne, rfl⟩⟩, _, hsave,
    (hsaved _ _ hsave).2⟩

end NodeDecl.SourceFile
