import NodeDecl.Proofs.CommandLine.Printing
import NodeDecl.Proofs.Output.Saving

/-! # Runs after a run

A run that saves its declarations leaves them up to date: a run that compares them finds no
difference, and the same run once more changes nothing. This needs that loading does not look at
what the first run made, since the later runs load the settings from the tree that it left. It
also needs a tree in which every entry lies in a directory; runs leave only such trees. A path with
steps to enclosing directories can lead to old files through a new directory.
-/

namespace NodeDecl.CommandLine
open Files

variable {args : List String} {environment : Environment} {t u : Tree}
  {i : Invocation}

/-- A run that saves and does not fail saves what its settings make. -/
theorem Invocation.run_save (htask : i.task = .save) (h : (i.run environment t).status = 0) :
    ∃ s f u path, i.settings environment t = .ok s ∧ s.generate = .ok f ∧
      f.save i.directory t = (u, .ok path) ∧ i.run environment t =
        ⟨0, "✅ Wrote " ++ path ++ " (" ++ toString f.typeCount ++ " types)\n", "", u⟩ := by
  have hcourse := i.course_run environment t
  generalize i.run environment t = o at h hcourse ⊢
  cases hcourse with
  | unsettled | rejected => cases h
  | printed _ hother | compared _ hother =>
    rw [htask] at hother
    cases hother
  | saved hs _ hf =>
    rcases Outcome.ofSaving_cases _ i.directory t with ⟨u, path, hsave, ho⟩ | ⟨u, failure, -, ho⟩
    · exact ⟨_, _, u, path, hs, hf, hsave, ho⟩
    · rw [ho] at h
      cases h

/-- A run leaves the tree as it is, or saves a file in it. -/
theorem tree_run (args : List String) (environment : Environment) (t : Tree) :
    (run args environment t).tree = t ∨
      ∃ (f : SourceFile) (directory : String),
        (run args environment t).tree = (f.save directory t).1 := by
  rw [run]
  cases Request.ofArguments args with
  | misuse | help | version => exact .inl rfl
  | run i =>
    rw [Request.answer]
    have hcourse := i.course_run environment t
    generalize i.run environment t = o at hcourse ⊢
    cases hcourse with
    | unsettled | printed | rejected => exact .inl rfl
    | compared => exact .inl (Outcome.ofComparing_spec _ _ t).1
    | @saved s f =>
      refine .inr ⟨f, i.directory, ?_⟩
      rcases Outcome.ofSaving_cases f i.directory t with ⟨u, path, hsave, ho⟩ | ⟨u, e, hsave, ho⟩
      · rw [ho, hsave]
      · rw [ho, hsave]
        rfl

/-- Every run leaves a well-formed tree, in particular a grounded one. -/
theorem wellFormed_run (ht : t.WellFormed) (args : List String)
    (environment : Environment) : (run args environment t).tree.WellFormed := by
  rcases tree_run args environment t with h | ⟨f, directory, h⟩
  · rw [h]
    exact ht
  · rw [h]
    exact SourceFile.wellFormed_save ht f directory

theorem Invocation.run_of_settings {s : Settings} {f : SourceFile}
    (hsettings : i.settings environment t = .ok s) (hf : s.generate = .ok f) :
    (i.task = .save → i.run environment t = .ofSaving f i.directory t) ∧
      (i.task = .compare → i.run environment t = .ofComparing f i.directory t) := by
  rw [Invocation.run, hsettings]
  constructor <;> intro htask <;> simp [finish, hf, htask]

theorem Outcome.ofComparing_of_current {f : SourceFile} {directory : String}
    (h : f.compare directory t = .ok .current) : ofComparing f directory t =
      ⟨0, "✅ " ++ f.pathIn directory ++ " is up to date\n", "", t⟩ := by
  -- not by its equation, which takes long to make
  delta ofComparing
  simp only [h]

/-- A run that saves in a new directory. -/
def firstRun : Outcome := run ["-t", "zig", "new/out"] baseVariable treeByPosition

/-- The paths at which loading looks in every tree: the standard places and that of the user, each
also with the extension of its format after it. -/
def fixedPaths (environment : Environment) : List String :=
  (standardPlaces ++ environment.userPlace?.toList).flatMap fun path => [path, path ++ ".toml"]

/-- A run saves its declarations, none of the paths at which loading always looks leads to what it
made, and yet they are out of date in the tree that it leaves. -/
def Outdates (args : List String) (environment : Environment) (t : Tree) : Prop :=
  (run args environment t).status = 0 ∧
    (∀ l ∈ (run args environment t).tree.entries.map Prod.fst,
      (run args environment t).tree.at? l ≠ t.at? l →
        ∀ path ∈ fixedPaths environment, ¬(run args environment t).tree.Denotes path l) ∧
    (run ("--check" :: args) environment (run args environment t).tree).status = 1

instance (args : List String) (environment : Environment) (t : Tree) :
    Decidable (Outdates args environment t) := inferInstanceAs (Decidable (_ ∧ _))

/-- Settings in the working directory that name the generated file like settings of the user in
another format, which are looked for because a directory has the name of the file for them. -/
def treeWithDirectory : Tree :=
  ⟨[], [(["astgen.toml"], .file
      "[grammar]\nvariants = []\n[output]\nfile_name = \"astgen.toml.yaml\"\n".toUTF8),
    (["astgen.toml", "astgen", ".config"], .directory), (["astgen", ".config"], .directory),
    ([".config"], .directory)]⟩

/-- Settings in the working directory, and settings of the user that name the generated file. -/
def treeWithDetour : Tree :=
  ⟨[], [(["astgen.toml"], .file "grammar.variants = []\n".toUTF8),
    (["astgen.toml", "astgen", "etc"], .file "output.file_name = \"b.zig\"\n".toUTF8),
    (["astgen", "etc"], .directory), (["etc"], .directory)]⟩

/-- Variables that lead to these settings of the user through a directory that is not there. -/
def detourVariables : Environment :=
  ⟨[("HOME", "/"), ("XDG_CONFIG_HOME", "/out/../etc")], none⟩

end NodeDecl.CommandLine
