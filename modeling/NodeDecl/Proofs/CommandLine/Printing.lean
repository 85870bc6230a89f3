import NodeDecl.Proofs.CommandLine.Arguments
import NodeDecl.Proofs.CommandLine.Courses
import NodeDecl.Proofs.Settings.Capture
import NodeDecl.Proofs.Settings.Probing

/-! # Printed settings

What a run prints as its settings can be stored in a new file and asked for by name. The settings
are then the same, and so is all that a run makes of them.
-/

namespace NodeDecl.CommandLine
open Files

variable {args : List String} {environment : Environment} {t u : Tree}
  {file directory : String} {i : Invocation}

theorem run_eq (h : Request.ofArguments args = .run i) :
    run args environment t = i.run environment t := by
  rw [run, h]
  rfl

theorem Invocation.settings_eq_ok_iff {s : Settings} : i.settings environment t = .ok s ↔
    ∃ loaded, Settings.load t i.file? environment = .ok loaded ∧
      s = { loaded with target := i.target?.getD loaded.target } := by
  rw [settings]
  cases Settings.load t i.file? environment <;> simp [eq_comm]

/-- Runs with the same settings and the same task in the same directory have the same outcome. -/
theorem Invocation.run_congr {j : Invocation} (hdirectory : j.directory = i.directory)
    (htask : j.task = i.task)
    (hsettings : j.settings environment t = i.settings environment t) :
    j.run environment t = i.run environment t := by
  rw [Invocation.run, Invocation.run, hsettings, htask]
  cases i.settings environment t with
  | error failure => rfl
  | ok s => simp only [finish, hdirectory, htask]

/-- A run that prints the settings and does not fail prints those of its arguments. -/
theorem Invocation.run_print (htask : i.task = .print) (h : (i.run environment t).status = 0) :
    ∃ s, i.settings environment t = .ok s ∧ i.run environment t = ⟨0, s.toToml, "", t⟩ := by
  rw [Invocation.run] at h ⊢
  cases hs : i.settings environment t with
  | error failure =>
    rw [hs] at h
    cases h
  | ok s => exact ⟨s, rfl, if_pos htask⟩

section NewFile

variable {l : Location} {b : ByteArray}

/-- A new file at which loading did not look changes nothing for it. -/
theorem sameFile_of_visited (hl : l ≠ []) (hnone : t.at? l = none)
    (hvisited : ∀ path ∈ visitedPaths t environment none, ¬(t.set l (.file b)).Denotes path l) :
    (∀ place ∈ environment.userPlace?,
        (t.set l (.file b)).contains place = t.contains place) ∧
      ∀ path ∈ visitedPaths t environment none, Tree.SameFile t (t.set l (.file b)) path := by
  constructor
  · intro place hp
    have hplace := hvisited place (List.mem_append_left _ (Option.mem_toList.mpr hp))
    rw [Bool.eq_iff_iff, Tree.contains_iff, Tree.contains_iff]
    simp only [Tree.Denotes, Tree.find_set_file_iff hl hnone hplace]
  · intro path hpath m c
    exact Tree.find_set_file_iff hl hnone (hvisited path hpath)

end NewFile

theorem mergeSources_append (t : Tree) (root : Item) (files more : List Source) :
    mergeSources t root (files ++ more) =
      (mergeSources t root files).bind fun root => mergeSources t root more := by
  induction files generalizing root with
  | nil => rfl
  | cons s files ih =>
    rw [List.cons_append, mergeSources, mergeSources]
    split
    · rfl
    · exact ih root
    · exact ih _

theorem locate?_asked {name : String} (h : t.isFile name = true) :
    Source.locate? ⟨name, [.toml], true⟩ t = some (name, .toml) := by
  rw [Source.locate?, Source.candidates, List.take_succ_cons, List.map_cons, List.cons_append]
  exact List.find?_cons_of_pos h

/-- A file that holds some settings in writing is merged over all other files. -/
theorem exists_mergeSources_asked {l : Location} {s : Settings}
    (hfile : u.find file = .ok (l, .file s.toToml.toUTF8)) {root : Item}
    (h : mergeSources u (.table none []) (sources u environment none) = .ok root) :
    ∃ origin, mergeSources u (.table none []) (sources u environment (some file)) =
      .ok (root.setAll (Item.entriesOfData origin s.writtenLayer)) := by
  have hholds : Source.Holds u ⟨file, [.toml], true⟩ s.writtenLayer :=
    .inr ⟨file, s.toToml, locate?_asked (Tree.isFile_iff.mpr ⟨l, _, hfile⟩),
      Tree.readText_of_find hfile, s.read?_toToml⟩
  have hsources : sources u environment (some file) =
      sources u environment none ++ [⟨file, [.toml], true⟩] := by
    rw [sources, sources]
    simp [askedSource]
  rcases hholds.entries? with ⟨-, hempty⟩ | ⟨origin, hentries⟩
  · cases hempty
  · refine ⟨origin, ?_⟩
    rw [hsources, mergeSources_append, h]
    simp only [Except.bind, mergeSources, hentries]

/-- Settings that were loaded are loaded again from a new file that holds them in writing. -/
theorem load_captured {l : Location} {loaded s : Settings} {target? : Option Target}
    (henvironment : Item.ScalarEnvironment environment.bindings)
    (hload : Settings.load t none environment = .ok loaded)
    (hs : s = { loaded with target := target?.getD loaded.target })
    (hl : l ≠ []) (hnone : t.at? l = none)
    (hfile : (t.set l (.file s.toToml.toUTF8)).find file = .ok (l, .file s.toToml.toUTF8))
    (hvisited : ∀ path ∈ visitedPaths t environment none,
      ¬(t.set l (.file s.toToml.toUTF8)).Denotes path l) :
    Settings.load (t.set l (.file s.toToml.toUTF8)) none environment = .ok loaded ∧
      ∃ again, Settings.load (t.set l (.file s.toToml.toUTF8)) (some file) environment = .ok again ∧
        s = { again with target := target?.getD again.target } := by
  obtain ⟨hplace, hsame⟩ := sameFile_of_visited hl hnone hvisited
  have hhere : (t.set l (.file s.toToml.toUTF8)).here = t.here := rfl
  refine ⟨(Settings.load_congr hhere hplace hsame).trans hload, ?_⟩
  rw [Settings.load] at hload
  split at hload
  · cases hload
  · next root hroot =>
    rw [← mergeSources_sources_congr hhere hplace hsame] at hroot
    obtain ⟨origin, hmerge⟩ := exists_mergeSources_asked hfile hroot
    obtain ⟨target, htarget, hcarries⟩ :=
      Item.exists_carries_writtenLayer henvironment origin hload hs
    refine ⟨{ s with target := target }, ?_, ?_⟩
    · rw [Settings.load, hmerge]
      exact hcarries.ofLayers_eq_ok
    · simp only [htarget]

/-- A tree with settings that are written by position. -/
def treeByPosition : Tree :=
  ⟨[], [(["astgen.toml"], .file "output = [\"rust\", \"n.rs\"]\n".toUTF8)]⟩

def baseVariable : Environment :=
  ⟨[("ASTGEN_GRAMMAR__BASE_NAME", "Node"), ("HOME", "/root"), ("XDG_CONFIG_HOME", "/../etc")], none⟩

/-- The tree once the settings of a run are stored in it. -/
def treeWithPrinted : Tree := treeByPosition.set ["kept.toml"]
  (.file (run ["--print-config", "out"] baseVariable treeByPosition).output.toUTF8)

end NodeDecl.CommandLine
