import NodeDecl.Output
import NodeDecl.Proofs.Files.Reading

/-! # Comparing files

What reading the path of a file gives decides how the file stands to the one on disk. A text that
is there is told from the text of the file by its digest.
-/

namespace NodeDecl.SourceFile
open Files

variable {t : Tree} {f : SourceFile} {directory : String}

/-- The four outcomes of a comparison. -/
theorem compare_cases (f : SourceFile) (directory : String) (t : Tree) :
    (t.readText (f.pathIn directory) = .error .notFound ∧ f.compare directory t =
      .ok (.absent (Diff.patch (f.pathIn directory) "" f.text))) ∨
    (∃ cause, cause ≠ .notFound ∧ t.readText (f.pathIn directory) = .error cause ∧
      f.compare directory t = .error (.files (f.pathIn directory) cause)) ∨
    (∃ old, t.readText (f.pathIn directory) = .ok old ∧ Digest.ofText old = f.digest ∧
      f.compare directory t = .ok .current) ∨
    ∃ old, t.readText (f.pathIn directory) = .ok old ∧ Digest.ofText old ≠ f.digest ∧
      f.compare directory t = .ok (.stale (Diff.patch (f.pathIn directory) old f.text)) := by
  -- not by the equation of `compare`, which takes long to make
  delta compare
  simp only []
  cases hread : t.readText (f.pathIn directory) with
  | error cause =>
    by_cases hcause : cause = .notFound
    · subst hcause
      exact .inl ⟨rfl, rfl⟩
    · exact .inr (.inl ⟨cause, hcause, rfl, by cases cause <;> trivial⟩)
  | ok old =>
    by_cases hdigest : Digest.ofText old = f.digest
    · exact .inr (.inr (.inl ⟨old, rfl, hdigest, if_pos hdigest⟩))
    · exact .inr (.inr (.inr ⟨old, rfl, hdigest, if_neg hdigest⟩))

/-- A file is absent if nothing is found at its path. -/
theorem compare_eq_absent_iff {patch : String} :
    f.compare directory t = .ok (.absent patch) ↔
      t.read (f.pathIn directory) = .error .notFound ∧
        patch = Diff.patch (f.pathIn directory) "" f.text := by
  have hnone : t.read (f.pathIn directory) = .error .notFound ↔
      t.readText (f.pathIn directory) = .error .notFound := by
    rw [Tree.readText_eq_error_iff]
    simp
  rw [hnone]
  rcases compare_cases f directory t with ⟨hread, h⟩ | ⟨cause, hcause, hread, h⟩ |
    ⟨old, hread, -, h⟩ | ⟨old, hread, -, h⟩
  · simp [h, hread, eq_comm]
  · simp [h, hread, hcause]
  · simp [h, hread]
  · simp [h, hread]

/-- A comparison fails for the path of the file, for whatever keeps its text from being read but
that nothing is there. -/
theorem compare_eq_error_iff {failure : Failure} : f.compare directory t = .error failure ↔
    ∃ cause, failure = .files (f.pathIn directory) cause ∧ cause ≠ .notFound ∧
      t.readText (f.pathIn directory) = .error cause := by
  rcases compare_cases f directory t with ⟨hread, h⟩ | ⟨cause, hcause, hread, h⟩ |
    ⟨old, hread, -, h⟩ | ⟨old, hread, -, h⟩
  · simp [h, hread, eq_comm]
  · simp only [h, hread, Except.error.injEq]
    constructor
    · rintro rfl
      exact ⟨cause, rfl, hcause, rfl⟩
    · rintro ⟨own, rfl, -, rfl⟩
      rfl
  · simp [h, hread]
  · simp [h, hread]

/-- The digest decides whether the text that is there is the one of the file. -/
theorem compare_eq_current_iff : f.compare directory t = .ok .current ↔
    ∃ old, t.readText (f.pathIn directory) = .ok old ∧ Digest.ofText old = f.digest := by
  rcases compare_cases f directory t with ⟨hread, h⟩ | ⟨cause, hcause, hread, h⟩ |
    ⟨old, hread, hdigest, h⟩ | ⟨old, hread, hdigest, h⟩
  · simp [h, hread]
  · simp [h, hread]
  · simp [h, hread, hdigest]
  · simp [h, hread, hdigest]

theorem compare_eq_stale_iff {patch : String} : f.compare directory t = .ok (.stale patch) ↔
    ∃ old, t.readText (f.pathIn directory) = .ok old ∧ Digest.ofText old ≠ f.digest ∧
      patch = Diff.patch (f.pathIn directory) old f.text := by
  rcases compare_cases f directory t with ⟨hread, h⟩ | ⟨cause, hcause, hread, h⟩ |
    ⟨old, hread, hdigest, h⟩ | ⟨old, hread, hdigest, h⟩
  · simp [h, hread]
  · simp [h, hread]
  · simp [h, hread, hdigest]
  · simp [h, hread, hdigest, eq_comm (b := patch)]

end NodeDecl.SourceFile
