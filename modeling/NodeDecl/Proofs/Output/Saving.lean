import NodeDecl.Proofs.Files.Making
import NodeDecl.Proofs.Output.Comparing
import NodeDecl.Settings.Basic

/-! # Files that were saved

To save a file touches the file and makes directories, and nothing else. The file is then up to
date, and to save it again changes nothing.
-/

namespace NodeDecl
open Files

variable {t u : Tree} {f : SourceFile} {directory path : String} {l : Location}

namespace SourceFile

theorem save_eq_ok_iff : f.save directory t = (u, .ok path) ↔ path = f.pathIn directory ∧
    ∃ made, t.makeDirectories directory = (made, .ok ()) ∧
      made.write path f.text.toUTF8 = .ok u := by
  rw [save]
  rcases hmade : t.makeDirectories directory with ⟨made, cause | _⟩
  · simp
  · simp only []
    cases hw : made.write (f.pathIn directory) f.text.toUTF8 with
    | error cause =>
      constructor
      · rintro ⟨⟩
      · rintro ⟨rfl, made', ⟨⟩, hw'⟩
        rw [hw] at hw'
        cases hw'
    | ok written =>
      constructor
      · rintro ⟨⟩
        exact ⟨rfl, made, rfl, hw⟩
      · rintro ⟨rfl, made', ⟨⟩, hw'⟩
        rw [hw] at hw'
        cases hw'
        rfl

/-- What a file is saved over: only the file and new directories are touched. -/
theorem grows_of_save (h : f.save directory t = (u, .ok path)) :
    Tree.Extends t u ∧ (∃ l, u.find path = .ok (l, .file f.text.toUTF8)) ∧
      ∀ l, ¬u.Denotes path l → (t.at? l = none → u.at? l ≠ some .directory) →
        u.at? l = t.at? l := by
  obtain ⟨-, made, hmade, hw⟩ := save_eq_ok_iff.mp h
  have hgrows := Tree.made_makeDirectories t directory
  rw [hmade] at hgrows
  obtain ⟨l, hl, hd, rfl, hf⟩ := Tree.write_spec hw
  refine ⟨hgrows.grows.trans (Tree.extends_set_file hl hd), ⟨l, hf⟩, fun m hm hnew => ?_⟩
  have hne : m ≠ l := by
    rintro rfl
    exact hm ⟨_, hf⟩
  rw [Tree.at?_set_of_ne hne] at hnew ⊢
  rcases hgrows.at?_cases m with hsame | ⟨hnone, hdirectory, -⟩
  · exact hsame
  · exact absurd hdirectory (hnew hnone)

/-- To save a file again changes nothing. -/
theorem save_again (h : f.save directory t = (u, .ok path)) :
    f.save directory u = (u, .ok path) := by
  obtain ⟨hpath, made, hmade, hw⟩ := save_eq_ok_iff.mp h
  obtain ⟨l, hl, hd, hu, -⟩ := Tree.write_spec hw
  have hdirectory : u.makeDirectories directory = (u, .ok ()) := by
    refine Tree.makeDirectories_of_isDirectory fun hne => ?_
    obtain ⟨m, hf⟩ := Tree.isDirectory_iff.mp (Tree.isDirectory_of_makeDirectories hne hmade)
    rw [hu]
    obtain ⟨e, hf', he⟩ := (Tree.extends_set_file hl hd).find hf
    exact Tree.isDirectory_iff.mpr ⟨m, by rw [hf', he.mpr rfl]⟩
  exact save_eq_ok_iff.mpr ⟨hpath, u, hdirectory, Tree.write_again hw⟩

/-- A tree stays well formed when a file is saved, also if that fails. -/
theorem wellFormed_save (ht : t.WellFormed) (f : SourceFile) (directory : String) :
    (f.save directory t).1.WellFormed := by
  have hmade := ht.makeDirectories directory
  rw [save]
  rcases h : t.makeDirectories directory with ⟨made, cause | _⟩
  · rw [h] at hmade
    exact hmade
  · rw [h] at hmade
    simp only []
    split
    · exact hmade
    · next hw => exact hmade.write hw

/-- A file that was saved is up to date. -/
theorem compare_of_save (hdigest : f.digest = Digest.ofText f.text)
    (h : f.save directory t = (u, .ok path)) : f.compare directory u = .ok .current := by
  obtain ⟨hpath, -⟩ := save_eq_ok_iff.mp h
  obtain ⟨-, ⟨l, hf⟩, -⟩ := grows_of_save h
  rw [hpath] at hf
  exact compare_eq_current_iff.mpr ⟨f.text, Tree.readText_of_find hf, hdigest.symm⟩

end SourceFile

theorem Settings.generate_eq_error_iff {s : Settings} {r : Rejection} :
    s.generate = .error r ↔ s.grammar = .error r := by
  rw [generate]
  cases s.grammar <;> simp [Except.map]

/-- The file that settings make has the name of their destination and the digest of its text. -/
theorem Settings.name_and_digest_of_generate {s : Settings} (h : s.generate = .ok f) :
    f.name = s.destination.fileName ∧ f.digest = Digest.ofText f.text := by
  rw [generate] at h
  cases hg : s.grammar with
  | error r =>
    rw [hg] at h
    cases h
  | ok g =>
    rw [hg] at h
    cases h
    exact ⟨rfl, rfl⟩

end NodeDecl
