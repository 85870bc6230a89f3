import NodeDecl.CommandLine.Outcome

/-! # Courses of a run

A run loads its settings and prints them, or makes the declarations and compares or saves them. It
ends where a step fails. Each course has its outcome, and all but the saving leave the tree alone.
-/

namespace NodeDecl.CommandLine
open Files

/-- The courses that a run can take, with what they come to. -/
inductive Invocation.Course (i : Invocation) (environment : Environment) (t : Tree) :
    Outcome → Prop
  | unsettled {fault} (hload : Settings.load t i.file? environment = .error fault) :
      Course i environment t (.failed t (.settings fault))
  | printed {s} (hs : i.settings environment t = .ok s) (htask : i.task = .print) :
      Course i environment t ⟨0, s.toToml, "", t⟩
  | rejected {s r} (hs : i.settings environment t = .ok s) (htask : i.task ≠ .print)
      (hread : s.generate = .error r) : Course i environment t (.failed t (.rejected r))
  | compared {s f} (hs : i.settings environment t = .ok s) (htask : i.task = .compare)
      (hf : s.generate = .ok f) : Course i environment t (.ofComparing f i.directory t)
  | saved {s f} (hs : i.settings environment t = .ok s) (htask : i.task = .save)
      (hf : s.generate = .ok f) : Course i environment t (.ofSaving f i.directory t)

theorem Invocation.settings_of_load_error {i : Invocation} {environment : Environment}
    {t : Tree} {fault : SettingsFault} (h : Settings.load t i.file? environment = .error fault) :
    i.settings environment t = .error (.settings fault) := by
  rw [settings, h]

theorem Invocation.course_run (i : Invocation) (environment : Environment) (t : Tree) :
    i.Course environment t (i.run environment t) := by
  rw [run]
  cases hload : Settings.load t i.file? environment with
  | error fault =>
    rw [settings_of_load_error hload]
    exact .unsettled hload
  | ok loaded =>
    obtain ⟨s, hs⟩ : ∃ s, i.settings environment t = .ok s := by
      rw [settings, hload]
      exact ⟨_, rfl⟩
    rw [hs]
    by_cases hprint : i.task = .print
    · simp only [if_pos hprint]
      exact .printed hs hprint
    · simp only [if_neg hprint, finish]
      cases hf : s.generate with
      | error r => exact .rejected hs hprint hf
      | ok f =>
        cases htask : i.task with
        | save => exact .saved hs htask hf
        | compare => exact .compared hs htask hf
        | print => exact absurd htask hprint

namespace Outcome

variable {f : SourceFile} {directory : String} {t : Tree}

/-- Saving comes to the path of the file and status 0, or to a failure and status 1. -/
theorem ofSaving_cases (f : SourceFile) (directory : String) (t : Tree) :
    (∃ u path, f.save directory t = (u, .ok path) ∧ ofSaving f directory t =
      ⟨0, "✅ Wrote " ++ path ++ " (" ++ toString f.typeCount ++ " types)\n", "", u⟩) ∨
    ∃ u failure, f.save directory t = (u, .error failure) ∧
      ofSaving f directory t = failed u failure := by
  rw [ofSaving]
  rcases f.save directory t with ⟨u, failure | path⟩
  · exact .inr ⟨u, failure, rfl, rfl⟩
  · exact .inl ⟨u, path, rfl, rfl⟩

theorem ofComparing_spec (f : SourceFile) (directory : String) (t : Tree) :
    (ofComparing f directory t).tree = t ∧
      ((ofComparing f directory t).status = 0 ∨ (ofComparing f directory t).status = 1) := by
  -- not by its equation, which takes long to make
  delta ofComparing
  simp only []
  split <;> simp [failed, Failure.exitCode]

end Outcome

end NodeDecl.CommandLine
