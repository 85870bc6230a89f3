import NodeDecl.Output
import NodeDecl.Proofs.Files.Making
import NodeDecl.Proofs.Files.Routes

/-! # Runs of calls

Files are saved and compared one after another. After any number of such calls, some of which
fail, a file on disk holds the text that was saved last at a path that leads to it, or what it
held at first if there is none. Nothing is removed, and nothing is new that no call names.
-/

namespace NodeDecl
open Files

/-- A file is saved in a directory, or compared with the one there. -/
inductive Call where
  | save (file : SourceFile) (directory : String)
  | compare (file : SourceFile) (directory : String)

/-- A file that was saved, and the directory it was saved in. -/
structure Saved where
  file : SourceFile
  directory : String
deriving DecidableEq

/-- The path of the file in the directory. -/
def Saved.path (s : Saved) : String := s.file.pathIn s.directory

namespace Call

/-- The tree that a call leaves. -/
def after (t : Tree) : Call → Tree
  | save f directory => (f.save directory t).1
  | compare _ _ => t

/-- What a call has saved. A comparison saves nothing, and neither does a call that fails. -/
def saved? (t : Tree) : Call → Option Saved
  | save f directory => match (f.save directory t).2 with
    | .ok _ => some ⟨f, directory⟩
    | .error _ => none
  | compare _ _ => none

/-- The tree that some calls leave. -/
def treeAfter (t : Tree) : List Call → Tree
  | [] => t
  | c :: calls => treeAfter (c.after t) calls

/-- What some calls have saved, in order. -/
def savedBy (t : Tree) : List Call → List Saved
  | [] => []
  | c :: calls => (c.saved? t).toList ++ savedBy (c.after t) calls

/-- To save a file fails once some directories are made, or makes them and writes the file. -/
theorem save_cases (f : SourceFile) (directory : String) (t : Tree) :
    ((save f directory).saved? t = none ∧
      Tree.Made (enclosingPaths directory) t ((save f directory).after t)) ∨
    ((save f directory).saved? t = some ⟨f, directory⟩ ∧
      ∃ u, Tree.Made (enclosingPaths directory) t u ∧
        u.write (f.pathIn directory) f.text.toUTF8 = .ok ((save f directory).after t)) := by
  have hmade := Tree.made_makeDirectories t directory
  rw [saved?, after, SourceFile.save]
  rcases hdir : t.makeDirectories directory with ⟨u, cause | _⟩
  · rw [hdir] at hmade
    exact .inl ⟨rfl, hmade⟩
  · rw [hdir] at hmade
    simp only []
    cases hw : u.write (f.pathIn directory) f.text.toUTF8 with
    | error cause => exact .inl ⟨rfl, hmade⟩
    | ok written => exact .inr ⟨rfl, u, hmade, hw⟩

/-- A call that saves nothing leaves every file as it was. -/
theorem at?_file_after_of_none {c : Call} {t : Tree} (h : c.saved? t = none) {l : Location}
    {b : ByteArray} : (c.after t).at? l = some (.file b) ↔ t.at? l = some (.file b) := by
  cases c with
  | save f directory =>
    rcases save_cases f directory t with ⟨-, hmade⟩ | ⟨hsaved, -⟩
    · exact hmade.file
    · rw [hsaved] at h
      cases h
  | compare f directory => exact Iff.rfl

end Call

/-- The last of the saved files whose path leads to the location has these bytes. -/
def LastSaved (u : Tree) (saved : List Saved) (l : Location) (b : ByteArray) : Prop :=
  ∃ before s after, saved = before ++ s :: after ∧ u.Denotes s.path l ∧
    (∀ s' ∈ after, ¬u.Denotes s'.path l) ∧ b = s.file.text.toUTF8

/-- The tree `t` has become `u` by calls that saved the files in `saved`. -/
structure Kept (calls : List Call) (saved : List Saved) (t u : Tree) : Prop where
  grows : Tree.Extends t u
  present : ∀ s ∈ saved, ∃ l b, u.find s.path = .ok (l, .file b)
  file : ∀ {l b}, u.at? l = some (.file b) → LastSaved u saved l b ∨
    ((∀ s ∈ saved, ¬u.Denotes s.path l) ∧ t.at? l = some (.file b))
  directory : ∀ {l}, u.at? l = some .directory → t.at? l = some .directory ∨
    ∃ f directory, .save f directory ∈ calls ∧ u.LeadsThrough directory l

namespace Kept

variable {calls calls' : List Call} {saved saved' : List Saved} {t u v : Tree} {l : Location}
  {b : ByteArray}

theorem refl (t : Tree) : Kept [] [] t t where
  grows := .refl t
  present := nofun
  file h := .inr ⟨nofun, h⟩
  directory h := .inl h

/-- What a saved path leads to does not change when more is saved. -/
theorem denotes_iff (h : Kept calls saved t u) (hg : Tree.Extends u v) {s : Saved}
    (hs : s ∈ saved) : v.Denotes s.path l ↔ u.Denotes s.path l := by
  rcases h.present s hs with ⟨m, c, hf⟩
  exact hg.denotes_iff ⟨_, hf⟩

theorem lastSaved_append (h : Kept calls saved t u) (hg : Tree.Extends u v)
    (hl : LastSaved u saved l b) (hnone : ∀ s ∈ saved', ¬v.Denotes s.path l) :
    LastSaved v (saved ++ saved') l b := by
  rcases hl with ⟨before, s, after, rfl, hs, hafter, hb⟩
  refine ⟨before, s, after ++ saved', ?_, hg.denotes hs, ?_, hb⟩
  · rw [List.append_assoc, List.cons_append]
  · intro s' hs'
    rcases List.mem_append.mp hs' with hs' | hs'
    · have hmem : s' ∈ before ++ s :: after :=
        List.mem_append_right before (List.mem_cons_of_mem s hs')
      rw [h.denotes_iff hg hmem]
      exact hafter s' hs'
    · exact hnone s' hs'

theorem trans (h : Kept calls saved t u) (h' : Kept calls' saved' u v) :
    Kept (calls ++ calls') (saved ++ saved') t v where
  grows := h.grows.trans h'.grows
  present := by
    intro s hs
    rcases List.mem_append.mp hs with hs | hs
    · rcases h.present s hs with ⟨l, b, hf⟩
      exact ⟨l, h'.grows.find_file hf⟩
    · exact h'.present s hs
  file := by
    intro l b hb
    rcases h'.file hb with hlast | ⟨hnone, hu⟩
    · rcases hlast with ⟨before, s, after, rfl, hs⟩
      exact .inl ⟨saved ++ before, s, after, (List.append_assoc _ _ _).symm, hs⟩
    · rcases h.file hu with hlast | ⟨hnone', ht⟩
      · exact .inl (h.lastSaved_append h'.grows hlast hnone)
      · refine .inr ⟨fun s hs => ?_, ht⟩
        rcases List.mem_append.mp hs with hs | hs
        · rw [h.denotes_iff h'.grows hs]
          exact hnone' s hs
        · exact hnone s hs
  directory := by
    intro l hd
    rcases h'.directory hd with hd | ⟨f, directory, hmem, hl⟩
    · rcases h.directory hd with hd | ⟨f, directory, hmem, hl⟩
      · exact .inl hd
      · exact .inr ⟨f, directory, List.mem_append_left _ hmem, h'.grows.leadsThrough hl⟩
    · exact .inr ⟨f, directory, List.mem_append_right _ hmem, hl⟩

end Kept

namespace Call

variable {t u v : Tree} {f : SourceFile} {directory : String}

theorem kept_of_made (hmade : Tree.Made (enclosingPaths directory) t u) :
    Kept [save f directory] [] t u := by
  refine ⟨hmade.grows, nofun, fun hb => .inr ⟨nofun, hmade.file.mp hb⟩, fun hd => ?_⟩
  rcases hmade.directory hd with hd | ⟨path, hp, hf⟩
  · exact .inl hd
  · exact .inr ⟨f, directory, List.mem_singleton_self _, Tree.leadsThrough_of_find hp hf⟩

theorem kept_of_write (hw : u.write (f.pathIn directory) f.text.toUTF8 = .ok v) :
    Kept [] [⟨f, directory⟩] u v := by
  rcases Tree.write_spec hw with ⟨l, hl, hd, rfl, hf⟩
  refine ⟨Tree.extends_set_file hl hd, ?_, ?_, ?_⟩
  · intro s hs
    rw [List.mem_singleton.mp hs]
    exact ⟨l, _, hf⟩
  · intro m b hb
    by_cases hm : m = l
    · subst hm
      rw [Tree.at?_set_self hl] at hb
      cases hb
      exact .inl ⟨[], _, [], rfl, ⟨_, hf⟩, nofun, rfl⟩
    · rw [Tree.at?_set_of_ne hm] at hb
      refine .inr ⟨?_, hb⟩
      intro s hs hdenotes
      rw [List.mem_singleton.mp hs] at hdenotes
      rcases hdenotes with ⟨e, he⟩
      rw [Saved.path, hf] at he
      cases he
      exact hm rfl
  · intro m hdir
    by_cases hm : m = l
    · subst hm
      rw [Tree.at?_set_self hl] at hdir
      cases hdir
    · rw [Tree.at?_set_of_ne hm] at hdir
      exact .inl hdir

/-- What one call keeps. -/
theorem kept_after (t : Tree) (c : Call) : Kept [c] (c.saved? t).toList t (c.after t) := by
  cases c with
  | save f directory =>
    rcases save_cases f directory t with ⟨hsaved, hmade⟩ | ⟨hsaved, u, hmade, hw⟩
    · rw [hsaved]
      exact kept_of_made hmade
    · rw [hsaved]
      exact (kept_of_made hmade).trans (kept_of_write hw)
  | compare f directory =>
    exact ⟨.refl t, nofun, fun hb => .inr ⟨nofun, hb⟩, fun hd => .inl hd⟩

/-- What any number of calls keeps. -/
theorem kept_treeAfter (t : Tree) (calls : List Call) :
    Kept calls (savedBy t calls) t (treeAfter t calls) := by
  induction calls generalizing t with
  | nil => exact .refl t
  | cons c calls ih => exact (kept_after t c).trans (ih (c.after t))

/-- Each file holds what was saved last at a path that leads to it, or its first bytes if nothing
was; all that was saved is there, and so is all that was there at first; a new file is one that
was saved, a new directory lies on the way to one in which a file was to be saved; and a call that
saves nothing changes no file. -/
theorem lastSaved_treeAfter (t : Tree) (calls : List Call) :
    (∀ l b, (treeAfter t calls).at? l = some (.file b) →
      LastSaved (treeAfter t calls) (savedBy t calls) l b ∨
        ((∀ s ∈ savedBy t calls, ¬(treeAfter t calls).Denotes s.path l) ∧
          t.at? l = some (.file b))) ∧
    (∀ s ∈ savedBy t calls, ∃ l b, (treeAfter t calls).find s.path = .ok (l, .file b)) ∧
    (∀ l, t.at? l = some .directory → (treeAfter t calls).at? l = some .directory) ∧
    (∀ l b, t.at? l = some (.file b) → ∃ b', (treeAfter t calls).at? l = some (.file b')) ∧
    (∀ l b, (treeAfter t calls).at? l = some (.file b) → (∃ b', t.at? l = some (.file b')) ∨
      ∃ s ∈ savedBy t calls, (treeAfter t calls).Denotes s.path l) ∧
    (∀ l, (treeAfter t calls).at? l = some .directory → t.at? l = some .directory ∨
      ∃ f directory, save f directory ∈ calls ∧
        (treeAfter t calls).LeadsThrough directory l) ∧
    ∀ before c rest, calls = before ++ c :: rest → c.saved? (treeAfter t before) = none →
      ∀ l b, (c.after (treeAfter t before)).at? l = some (.file b) ↔
        (treeAfter t before).at? l = some (.file b) := by
  have h := kept_treeAfter t calls
  refine ⟨fun l b => h.file, h.present, fun l => h.grows.directory, fun l b => h.grows.file,
    ?_, fun l => h.directory, fun before c rest _ hnone l b => at?_file_after_of_none hnone⟩
  intro l b hb
  rcases h.file hb with ⟨before, s, rest, hsaved, hs, -⟩ | ⟨-, ht⟩
  · exact .inr ⟨s, by rw [hsaved]; exact List.mem_append_right _ List.mem_cons_self, hs⟩
  · exact .inl ⟨b, ht⟩

/-- A file is saved twice, under two names of one directory; then its path is taken for a
directory, and that call fails. -/
def overwriting : List Call :=
  [save ⟨"a.zig", "first\n", 0, default⟩ "out", save ⟨"a.zig", "new\n", 0, default⟩ "b/../out",
    save ⟨"c", "", 0, default⟩ "out/a.zig"]

theorem lastSaved_overwriting :
    (savedBy (.bare []) overwriting).map Saved.path = ["out/a.zig", "b/../out/a.zig"] ∧
      LastSaved (treeAfter (.bare []) overwriting) (savedBy (.bare []) overwriting)
        ["a.zig", "out"] "new\n".toUTF8 := by
  have hfile : (treeAfter (.bare []) overwriting).at? ["a.zig", "out"] =
      some (.file "new\n".toUTF8) := by decide +kernel
  refine ⟨by decide +kernel, ?_⟩
  rcases (lastSaved_treeAfter (.bare []) overwriting).1 _ _ hfile with h | ⟨-, hold⟩
  · exact h
  · cases hold

end Call

end NodeDecl
