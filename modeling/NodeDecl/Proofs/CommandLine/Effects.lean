import NodeDecl.Proofs.CommandLine.Rerun
import NodeDecl.Proofs.Output.Runs

/-! # Effects of a run

A run changes the file tree in one case only: it is to save its declarations, its settings can be
loaded and its table is accepted. It then makes directories on the way to the one that its
arguments name, and if it does not fail, it writes the declarations to one file, and nothing else.
-/

namespace NodeDecl.CommandLine
open Files

variable {args : List String} {environment : Environment} {t u : Tree}

/-- The trees differ in new directories on the way to the directory, and, if the file is written,
in the file at the path, which was no directory before. -/
structure Touches (directory path : String) (content : ByteArray) (written : Prop) (t u : Tree) :
    Prop where
  here : u.here = t.here
  changed : ∀ l, u.at? l ≠ t.at? l →
    (t.at? l = none ∧ u.at? l = some .directory ∧ u.LeadsThrough directory l) ∨
      (written ∧ u.Denotes path l ∧ t.at? l ≠ some .directory ∧ u.at? l = some (.file content))
  file : written → ∃ l, u.find path = .ok (l, .file content)

theorem touches_of_made {directory path : String} {content : ByteArray} {written : Prop}
    (h : Tree.Made (enclosingPaths directory) t u) (hnot : ¬written) :
    Touches directory path content written t u := by
  refine ⟨h.grows.here, fun l hl => .inl ?_, fun hw => absurd hw hnot⟩
  rcases h.at?_cases l with hsame | ⟨hnone, hdirectory, around, haround, hfind⟩
  · exact absurd hsame hl
  · exact ⟨hnone, hdirectory, Tree.leadsThrough_of_find haround hfind⟩

theorem touches_of_write {made : Tree} {directory path : String} {content : ByteArray}
    {written : Prop} (h : Tree.Made (enclosingPaths directory) t made)
    (hwrite : made.write path content = .ok u) (hw : written) :
    Touches directory path content written t u := by
  obtain ⟨m, hm, hd, rfl, hfind⟩ := Tree.write_spec hwrite
  have hgrows := Tree.extends_set_file (b := content) hm hd
  refine ⟨hgrows.here.trans h.grows.here, fun l hl => ?_, fun _ => ⟨m, hfind⟩⟩
  by_cases hlm : l = m
  · subst hlm
    exact .inr ⟨hw, ⟨_, hfind⟩, fun ht => hd (h.grows.directory ht), Tree.at?_set_self hm⟩
  · rw [Tree.at?_set_of_ne hlm] at hl ⊢
    rcases h.at?_cases l with hsame | ⟨hnone, hdirectory, around, haround, hfind⟩
    · exact absurd hsame hl
    · exact .inl ⟨hnone, hdirectory,
        hgrows.leadsThrough (Tree.leadsThrough_of_find haround hfind)⟩

/-- Saving touches the file that is saved, and its status tells whether it was written. -/
theorem touches_ofSaving (f : SourceFile) (directory : String) (t : Tree) :
    Touches directory (f.pathIn directory) f.text.toUTF8
      ((Outcome.ofSaving f directory t).status = 0) t (Outcome.ofSaving f directory t).tree := by
  rcases Outcome.ofSaving_cases f directory t with ⟨u, path, hsave, ho⟩ | ⟨u, e, hsave, ho⟩
  · obtain ⟨rfl, made, hmade, hwrite⟩ := SourceFile.save_eq_ok_iff.mp hsave
    have hgrows := Tree.made_makeDirectories t directory
    rw [hmade] at hgrows
    rw [ho]
    exact touches_of_write hgrows hwrite rfl
  · rw [ho]
    refine touches_of_made ?_ (by simp [Outcome.failed, Failure.exitCode])
    rcases Call.save_cases f directory t with ⟨-, hmade⟩ | ⟨hsaved, -⟩
    · rw [Call.after, hsave] at hmade
      exact hmade
    · rw [Call.saved?, hsave] at hsaved
      cases hsaved

/-- The cases in which a run leaves the tree alone: its arguments are refused, ask for help or for
the version, or raise a flag, or its settings cannot be loaded, or its table is rejected. -/
inductive Idle (args : List String) (environment : Environment) (t : Tree) : Prop
  | misuse (h : Request.ofArguments args = .misuse)
  | help (h : Request.ofArguments args = .help)
  | version (h : Request.ofArguments args = .version)
  | flag {f} (h : Raises args f)
  | settings {i fault} (h : Request.ofArguments args = .run i)
      (hload : Settings.load t i.file? environment = .error fault)
  | table {i s r} (h : Request.ofArguments args = .run i)
      (hs : i.settings environment t = .ok s) (hread : s.grammar = .error r)

theorem not_idle {i : Invocation} {s : Settings} {f : SourceFile}
    (h : Request.ofArguments args = .run i) (htask : i.task = .save)
    (hs : i.settings environment t = .ok s) (hf : s.generate = .ok f) :
    ¬Idle args environment t := by
  rintro (h' | h' | h' | hflag | ⟨h', hload⟩ | ⟨h', hs', hread⟩)
  · rw [h] at h'
    cases h'
  · rw [h] at h'
    cases h'
  · rw [h] at h'
    cases h'
  · exact (task_eq_save_iff h).mp htask _ hflag
  · rw [h] at h'
    cases h'
    rw [Invocation.settings_of_load_error hload] at hs
    cases hs
  · rw [h] at h'
    cases h'
    rw [hs] at hs'
    cases hs'
    rw [Settings.generate_eq_error_iff.mpr hread] at hf
    cases hf

/-- What a request to run does: its status is 0 or 1, and it leaves the tree alone, or it saves
the file that its settings make. -/
theorem Invocation.effects {i : Invocation} (h : Request.ofArguments args = .run i)
    (environment : Environment) (t : Tree) :
    ((i.run environment t).status = 0 ∨ (i.run environment t).status = 1) ∧
      ((Idle args environment t ∧ (i.run environment t).tree = t) ∨
        ¬Idle args environment t ∧ ∃ s f, i.settings environment t = .ok s ∧
          s.generate = .ok f ∧ i.run environment t = .ofSaving f i.directory t) := by
  have hcourse := i.course_run environment t
  have hidle (htask : i.task ≠ .save) : Idle args environment t := by
    rw [ne_eq, task_eq_save_iff h, not_forall_not] at htask
    obtain ⟨f, hf⟩ := htask
    exact .flag hf
  generalize i.run environment t = o at hcourse ⊢
  cases hcourse with
  | unsettled hload => exact ⟨.inr rfl, .inl ⟨.settings h hload, rfl⟩⟩
  | printed hs htask => exact ⟨.inl rfl, .inl ⟨hidle (by simp [htask]), rfl⟩⟩
  | rejected hs htask hread =>
    exact ⟨.inr rfl, .inl ⟨.table h hs (Settings.generate_eq_error_iff.mp hread), rfl⟩⟩
  | @compared s f hs htask hf =>
    obtain ⟨htree, hstatus⟩ := Outcome.ofComparing_spec f i.directory t
    exact ⟨hstatus, .inl ⟨hidle (by simp [htask]), htree⟩⟩
  | @saved s f hs htask hf =>
    refine ⟨?_, .inr ⟨not_idle h htask hs hf, s, f, hs, hf, rfl⟩⟩
    rcases Outcome.ofSaving_cases f i.directory t with ⟨u, path, -, ho⟩ | ⟨u, e, -, ho⟩
    · exact .inl (by rw [ho])
    · exact .inr (by rw [ho]; rfl)

end NodeDecl.CommandLine
