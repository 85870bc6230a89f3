import Mathlib.Data.List.Basic
import NodeDecl.Files.Tree

/-! # Trees that grow

A tree extends another if directories stay directories and files stay files, whatever they hold.
A path that leads somewhere in a tree leads to the same place in every tree that extends it.
-/

namespace NodeDecl.Files.Tree

variable {t u v : Tree} {l : Location}

theorem at?_set_self {e : Entry} (h : l ≠ []) : (t.set l e).at? l = some e := by
  cases l with
  | nil => exact absurd rfl h
  | cons name l => simp [set, at?]

theorem lookup_filter_ne {l m : Location} (h : m ≠ l) (entries : List (Location × Entry)) :
    (entries.filter fun p => p.1 ≠ l).lookup m = entries.lookup m := by
  induction entries with
  | nil => rfl
  | cons p entries ih =>
    by_cases hp : p.1 = l
    · have hm : (m == p.1) = false := by rw [hp]; exact beq_eq_false_iff_ne.mpr h
      rw [List.filter_cons_of_neg (by simpa using hp), ih, List.lookup_cons, hm]
    · rw [List.filter_cons_of_pos (by simpa using hp), List.lookup_cons, List.lookup_cons, ih]

theorem at?_set_of_ne {m : Location} {e : Entry} (h : m ≠ l) : (t.set l e).at? m = t.at? m := by
  cases m with
  | nil => rfl
  | cons name m =>
    have hm : ((name :: m) == l) = false := beq_eq_false_iff_ne.mpr h
    change List.lookup (name :: m) ((l, e) :: t.entries.filter fun p => p.1 ≠ l) = _
    rw [List.lookup_cons, hm]
    exact lookup_filter_ne h t.entries

/-- Walks start at the same place, and the directories of `t` are directories of `u` as well. -/
structure Within (t u : Tree) : Prop where
  here : u.here = t.here
  directory : ∀ {l}, t.at? l = some .directory → u.at? l = some .directory

namespace Within

theorem step {s : Step} {m : Location} (h : Within t u) (hs : t.step l s = .ok m) :
    u.step l s = .ok m := by
  cases s with
  | here => exact hs
  | up => exact hs
  | child name =>
    rw [Tree.step] at hs ⊢
    split at hs
    · cases hs
    · next hlimit =>
      split at hs
      · cases hs
      · cases hs
      · next hd => rw [if_neg hlimit, h.directory hd, ← hs]

theorem walk {steps : List Step} {m : Location} (h : Within t u) (hw : t.walk l steps = .ok m) :
    u.walk l steps = .ok m := by
  induction steps generalizing l with
  | nil => exact hw
  | cons s steps ih =>
    rw [Tree.walk] at hw ⊢
    split at hw
    · cases hw
    · next next hs =>
      rw [h.step hs]
      exact ih hw

theorem goal {path : String} {g : Goal} (h : Within t u) (hg : t.goal path = .ok g) :
    u.goal path = .ok g := by
  rw [Tree.goal] at hg ⊢
  split at hg
  · cases hg
  · split at hg
    · cases hg
    · split at hg
      · cases hg
      · next hnul hempty hlimit =>
        simp only [] at hg
        split at hg
        · cases hg
        · next l hw =>
          rw [if_neg hnul, if_neg hempty, if_neg hlimit]
          simp only [h.here, h.walk hw]
          exact hg

end Within

/-- All directories and files of `t` are in `u` as well, the files perhaps with other bytes. -/
structure Extends (t u : Tree) : Prop where
  here : u.here = t.here
  directory : ∀ {l}, t.at? l = some .directory → u.at? l = some .directory
  file : ∀ {l b}, t.at? l = some (.file b) → ∃ b', u.at? l = some (.file b')

namespace Extends

theorem refl (t : Tree) : Extends t t := ⟨rfl, id, fun h => ⟨_, h⟩⟩

theorem trans (h : Extends t u) (h' : Extends u v) : Extends t v := by
  refine ⟨h'.here.trans h.here, fun hd => h'.directory (h.directory hd), fun hf => ?_⟩
  rcases h.file hf with ⟨b, hb⟩
  exact h'.file hb

theorem within (h : Extends t u) : Within t u := ⟨h.here, h.directory⟩

theorem walk {steps : List Step} {m : Location} (h : Extends t u) (hw : t.walk l steps = .ok m) :
    u.walk l steps = .ok m := h.within.walk hw

theorem goal {path : String} {g : Goal} (h : Extends t u) (hg : t.goal path = .ok g) :
    u.goal path = .ok g := h.within.goal hg

theorem find {path : String} {e : Entry} (h : Extends t u) (hf : t.find path = .ok (l, e)) :
    ∃ e', u.find path = .ok (l, e') ∧ (e' = .directory ↔ e = .directory) := by
  rw [Tree.find] at hf ⊢
  split at hf
  · cases hf
  · next m hg =>
    cases hf
    rw [h.goal hg]
    exact ⟨_, rfl, Iff.rfl⟩
  · next m name slashed hg =>
    rw [h.goal hg]
    simp only []
    split at hf
    · cases hf
    · next hlimit =>
      rw [if_neg hlimit]
      split at hf
      · cases hf
      · next hd =>
        cases hf
        rw [h.directory hd]
        exact ⟨_, rfl, Iff.rfl⟩
      · next b hb =>
        split at hf
        · cases hf
        · next hslashed =>
          cases hf
          rcases h.file hb with ⟨b', hb'⟩
          rw [hb']
          simp only [if_neg hslashed]
          refine ⟨_, rfl, ?_⟩
          constructor <;> rintro ⟨⟩

theorem find_file {path : String} {b : ByteArray} (h : Extends t u)
    (hf : t.find path = .ok (l, .file b)) : ∃ b', u.find path = .ok (l, .file b') := by
  rcases h.find hf with ⟨e, he, hd⟩
  cases e with
  | directory => cases hd.mp rfl
  | file b' => exact ⟨b', he⟩

end Extends

/-- The path leads to a directory or a file at the location. -/
def Denotes (t : Tree) (path : String) (l : Location) : Prop := ∃ e, t.find path = .ok (l, e)

instance (t : Tree) (path : String) (l : Location) : Decidable (t.Denotes path l) :=
  match h : t.find path with
  | .error _ => .isFalse fun ⟨_, he⟩ => by rw [h] at he; cases he
  | .ok (m, e) =>
    if hm : m = l then .isTrue ⟨e, by rw [h, hm]⟩
    else .isFalse fun ⟨_, he⟩ => by rw [h] at he; cases he; exact hm rfl

theorem Extends.denotes {path : String} (h : Extends t u) (hd : t.Denotes path l) :
    u.Denotes path l := by
  rcases hd with ⟨e, hf⟩
  rcases h.find hf with ⟨e', hf', -⟩
  exact ⟨e', hf'⟩

/-- A path that leads somewhere leads nowhere else once the tree has grown. -/
theorem Extends.denotes_iff {path : String} {m : Location} (h : Extends t u)
    (hd : t.Denotes path m) : u.Denotes path l ↔ t.Denotes path l := by
  constructor
  · intro hu
    rcases hu with ⟨e, hf⟩
    rcases h.denotes hd with ⟨e', hf'⟩
    rw [hf] at hf'
    cases hf'
    exact hd
  · exact h.denotes

theorem extends_set_file {b : ByteArray} (hl : l ≠ []) (h : t.at? l ≠ some .directory) :
    Extends t (t.set l (.file b)) := by
  refine ⟨rfl, fun {m} hd => ?_, fun {m c} hf => ?_⟩
  · have hne : m ≠ l := by
      rintro rfl
      exact h hd
    rw [at?_set_of_ne hne, hd]
  · by_cases hm : m = l
    · subst hm
      exact ⟨b, at?_set_self hl⟩
    · exact ⟨c, by rw [at?_set_of_ne hm, hf]⟩

theorem extends_set_directory (hl : l ≠ []) (h : t.at? l = none) :
    Extends t (t.set l .directory) := by
  refine ⟨rfl, fun {m} hd => ?_, fun {m c} hf => ?_⟩
  · by_cases hm : m = l
    · subst hm
      exact at?_set_self hl
    · rw [at?_set_of_ne hm, hd]
  · have hne : m ≠ l := by
      rintro rfl
      rw [h] at hf
      cases hf
    exact ⟨c, by rw [at?_set_of_ne hne, hf]⟩

/-- A file is written under the name that its path gives it in a directory. -/
theorem goal_of_write {path : String} {b : ByteArray} (h : t.write path b = .ok u) :
    ∃ l name, t.goal path = .ok (.named l name false) ∧ ¬nameLimit < name.utf8ByteSize ∧
      t.at? (name :: l) ≠ some .directory ∧ u = t.set (name :: l) (.file b) := by
  rw [write] at h
  split at h
  · cases h
  · cases h
  · next l name slashed hg =>
    cases slashed with
    | true => cases h
    | false =>
      rw [if_neg Bool.false_ne_true] at h
      split at h
      · cases h
      · next hlimit =>
        split at h
        · cases h
        · next hd =>
          cases h
          exact ⟨l, name, hg, hlimit, hd, rfl⟩

/-- A directory is made under the name that its path gives it in a directory. -/
theorem goal_of_makeDirectory {path : String} (h : t.makeDirectory path = .ok u) :
    ∃ l name slashed, t.goal path = .ok (.named l name slashed) ∧
      ¬nameLimit < name.utf8ByteSize ∧ t.at? (name :: l) = none ∧
        u = t.set (name :: l) .directory := by
  rw [makeDirectory] at h
  split at h
  · cases h
  · cases h
  · next l name slashed hg =>
    split at h
    · cases h
    · next hlimit =>
      split at h
      · cases h
      · next hnone =>
        cases h
        exact ⟨l, name, slashed, hg, hlimit, hnone, rfl⟩

/-- A file is written where its path leads, and nowhere else. -/
theorem write_spec {path : String} {b : ByteArray} (h : t.write path b = .ok u) :
    ∃ l, l ≠ [] ∧ t.at? l ≠ some .directory ∧ u = t.set l (.file b) ∧
      u.find path = .ok (l, .file b) := by
  obtain ⟨l, name, hg, hlimit, hd, rfl⟩ := goal_of_write h
  have hne : name :: l ≠ [] := List.cons_ne_nil name l
  refine ⟨name :: l, hne, hd, rfl, ?_⟩
  rw [find, (extends_set_file hne hd).goal hg]
  simp only [if_neg hlimit, at?_set_self hne, if_neg Bool.false_ne_true]

/-- A directory is made where its path leads, and nowhere else. -/
theorem makeDirectory_spec {path : String} (h : t.makeDirectory path = .ok u) :
    ∃ l, l ≠ [] ∧ t.at? l = none ∧ u = t.set l .directory ∧
      u.find path = .ok (l, .directory) := by
  obtain ⟨l, name, slashed, hg, hlimit, hnone, rfl⟩ := goal_of_makeDirectory h
  have hne : name :: l ≠ [] := List.cons_ne_nil name l
  refine ⟨name :: l, hne, hnone, rfl, ?_⟩
  rw [find, (extends_set_directory hne hnone).goal hg]
  simp only [if_neg hlimit, at?_set_self hne]

/-- Where the walk along a route starts. -/
def start (t : Tree) (r : Route) : Location := if r.fromRoot then [] else t.here

theorem walk_append {a b : List Step} {m : Location} (h : t.walk l a = .ok m) :
    t.walk l (a ++ b) = t.walk m b := by
  induction a generalizing l with
  | nil =>
    cases h
    rfl
  | cons s a ih =>
    rw [walk] at h
    rw [List.cons_append, walk]
    split at h
    · cases h
    · exact ih h

theorem walk_singleton {s : Step} : t.walk l [s] = t.step l s := by
  rw [walk]
  split
  · next hs => rw [hs]
  · next hs => rw [hs, walk]

/-- Where the last step of a path leads from the directory before it. -/
def lastGoal (m : Location) (slashed : Bool) : Step → Goal
  | .here => .reached m
  | .up => .reached m.tail
  | .child name => .named m name slashed

/-- A path has no steps, or its goal is where the last one leads. -/
theorem goal_spec {path : String} {g : Goal} (h : t.goal path = .ok g) :
    ((Route.ofPath path).steps = [] ∧ g = .reached (t.start (Route.ofPath path))) ∨
      ∃ steps s m, (Route.ofPath path).steps = steps ++ [s] ∧
        t.walk (t.start (Route.ofPath path)) steps = .ok m ∧
          g = lastGoal m (Route.ofPath path).slashed s := by
  rw [goal] at h
  split at h
  · cases h
  · split at h
    · cases h
    · split at h
      · cases h
      · simp only [] at h
        rcases (Route.ofPath path).steps.eq_nil_or_concat' with hnil | ⟨steps, s, hsteps⟩
        · rw [hnil] at h
          cases h
          exact .inl ⟨hnil, rfl⟩
        · rw [hsteps, List.dropLast_concat, List.getLast?_concat] at h
          split at h
          · cases h
          · next m hw =>
            refine .inr ⟨steps, s, m, hsteps, hw, ?_⟩
            cases s <;> exact (Except.ok.inj h).symm

/-- A path that leads to a directory leads there by a walk through directories. -/
theorem walk_of_find {path : String} (h : t.find path = .ok (l, .directory)) :
    t.walk (t.start (Route.ofPath path)) (Route.ofPath path).steps = .ok l := by
  rw [find] at h
  split at h
  · cases h
  · next m hg =>
    cases h
    rcases goal_spec hg with ⟨hnil, he⟩ | ⟨steps, s, m, hsteps, hw, he⟩
    · cases he
      rw [hnil]
      rfl
    · rw [hsteps, walk_append hw, walk_singleton]
      cases s <;> cases he <;> rfl
  · next m name slashed hg =>
    split at h
    · cases h
    · next hlimit =>
      have hd : t.at? (name :: m) = some .directory ∧ name :: m = l := by
        split at h
        · cases h
        · next hd =>
          cases h
          exact ⟨hd, rfl⟩
        · split at h <;> cases h
      rcases goal_spec hg with ⟨-, he⟩ | ⟨steps, s, m, hsteps, hw, he⟩
      · cases he
      · rw [hsteps, walk_append hw, walk_singleton]
        cases s with
        | here => cases he
        | up => cases he
        | child name =>
          cases he
          rw [step, if_neg hlimit, hd.1]
          exact congrArg Except.ok hd.2

end NodeDecl.Files.Tree
