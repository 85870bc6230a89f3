import NodeDecl.Proofs.Files.Reading

/-! # Making directories

Making a directory with those around it touches no file and removes nothing, also when it stops
half-way. Each directory that is new is one that a path around the wanted one leads to. A tree in
which every entry lies in a directory stays one when files are written and directories made.
-/

namespace NodeDecl.Files.Tree

variable {t u v : Tree} {l : Location} {path : String} {paths : List String}

/-- Only directories are new in `u`, and to each of them one of the paths leads. -/
structure Made (paths : List String) (t u : Tree) : Prop where
  grows : Extends t u
  file : ∀ {l b}, u.at? l = some (.file b) ↔ t.at? l = some (.file b)
  directory : ∀ {l}, u.at? l = some .directory →
    t.at? l = some .directory ∨ ∃ path ∈ paths, u.find path = .ok (l, .directory)

namespace Made

theorem refl (paths : List String) (t : Tree) : Made paths t t := ⟨.refl t, Iff.rfl, .inl⟩

theorem mono {paths' : List String} (h : Made paths t u) (hs : paths ⊆ paths') :
    Made paths' t u := by
  refine ⟨h.grows, h.file, fun hd => ?_⟩
  rcases h.directory hd with hd | ⟨path, hp, hf⟩
  · exact .inl hd
  · exact .inr ⟨path, hs hp, hf⟩

theorem trans (h : Made paths t u) (h' : Made paths u v) : Made paths t v := by
  refine ⟨h.grows.trans h'.grows, h'.file.trans h.file, fun hd => ?_⟩
  rcases h'.directory hd with hd | hnew
  · rcases h.directory hd with hd | ⟨path, hp, hf⟩
    · exact .inl hd
    · rcases h'.grows.find hf with ⟨e, hf, he⟩
      rw [he.mpr rfl] at hf
      exact .inr ⟨path, hp, hf⟩
  · exact .inr hnew

/-- A location is as it was, or a new directory to which one of the paths leads. -/
theorem at?_cases (h : Made paths t u) (l : Location) : u.at? l = t.at? l ∨
    t.at? l = none ∧ u.at? l = some .directory ∧ ∃ path ∈ paths, u.find path = .ok (l, .directory) := by
  match hu : u.at? l, ht : t.at? l with
  | none, none => exact .inl rfl
  | none, some .directory => simp [h.grows.directory ht] at hu
  | none, some (.file b) => simp [h.file.mpr ht] at hu
  | some (.file b), _ => exact .inl ((h.file.mp hu).symm.trans ht)
  | some .directory, some .directory => exact .inl rfl
  | some .directory, some (.file b) => simp [h.file.mpr ht] at hu
  | some .directory, none =>
    rcases h.directory hu with hd | hnew
    · simp [ht] at hd
    · exact .inr ⟨rfl, rfl, hnew⟩

theorem ofMakeDirectory (h : t.makeDirectory path = .ok u) : Made [path] t u := by
  rcases makeDirectory_spec h with ⟨l, hl, hnone, rfl, hf⟩
  refine ⟨extends_set_directory hl hnone, ?_, ?_⟩
  · intro m b
    by_cases hm : m = l
    · subst hm
      rw [at?_set_self hl, hnone]
      exact ⟨nofun, nofun⟩
    · rw [at?_set_of_ne hm]
  · intro m hd
    by_cases hm : m = l
    · subst hm
      exact .inr ⟨path, List.mem_cons_self, hf⟩
    · rw [at?_set_of_ne hm] at hd
      exact .inl hd

end Made

/-- What the making of each directory preserves, the making of all preserves, also when it stops
half-way. -/
theorem makeAlong_preserves {P : Tree → Prop}
    (hstep : ∀ path ∈ paths, ∀ {t u : Tree}, P t → t.makeDirectory path = .ok u → P u) (h : P t) :
    P (t.makeAlong paths).1 := by
  induction paths with
  | nil => exact h
  | cons path rest ih =>
    have hpath {t u : Tree} : P t → t.makeDirectory path = .ok u → P u :=
      hstep path List.mem_cons_self
    have hrest := ih fun path hp => hstep path (List.mem_cons_of_mem _ hp)
    rw [makeAlong]
    split
    · exact h
    · split
      · next made hmade => exact hpath h hmade
      · split
        · next u cause hu =>
          rw [hu] at hrest
          exact hrest
        · next u hu =>
          rw [hu] at hrest
          split
          · next made hmade => exact hpath hrest hmade
          · split <;> exact hrest
      · split <;> exact h

theorem made_makeAlong (t : Tree) (paths : List String) : Made paths t (t.makeAlong paths).1 := by
  refine makeAlong_preserves (fun path hp u v hmade h => ?_) (.refl paths t)
  have hpath : [path] ⊆ paths := List.cons_subset.mpr ⟨hp, List.nil_subset paths⟩
  exact hmade.trans ((Made.ofMakeDirectory h).mono hpath)

theorem made_makeDirectories (t : Tree) (path : String) :
    Made (enclosingPaths path) t (t.makeDirectories path).1 :=
  made_makeAlong t (enclosingPaths path)

theorem isDirectory_of_makeDirectory (h : t.makeDirectory path = .ok u) :
    u.isDirectory path = true := by
  obtain ⟨l, -, -, -, hf⟩ := makeDirectory_spec h
  exact isDirectory_iff.mpr ⟨l, hf⟩

/-- Directories that were made are there. -/
theorem isDirectory_of_makeDirectories (hne : path ≠ "")
    (h : t.makeDirectories path = (u, .ok ())) : u.isDirectory path = true := by
  rw [makeDirectories, enclosingPaths, makeAlong, if_neg hne] at h
  split at h
  · next made hmade =>
    cases h
    exact isDirectory_of_makeDirectory hmade
  · split at h
    · cases h
    · split at h
      · next made hmade =>
        cases h
        exact isDirectory_of_makeDirectory hmade
      · split at h
        · next hdirectory =>
          cases h
          exact hdirectory
        · cases h
  · split at h
    · next hdirectory =>
      cases h
      exact hdirectory
    · cases h

theorem makeDirectory_of_find (h : t.find path = .ok (l, .directory)) :
    t.makeDirectory path = .error .alreadyExists := by
  obtain ⟨g, hg⟩ := exists_goal_of_find h
  rw [find, hg] at h
  rw [makeDirectory, hg]
  cases g with
  | reached m => rfl
  | named m name slashed =>
    simp only [] at h ⊢
    split at h
    · cases h
    · next hlimit =>
      rw [if_neg hlimit]
      split at h
      · cases h
      · next hd => rw [hd]
      · next b hb => rw [hb]

/-- To make directories that are there changes nothing. -/
theorem makeDirectories_of_isDirectory (h : path ≠ "" → t.isDirectory path = true) :
    t.makeDirectories path = (t, .ok ()) := by
  rw [makeDirectories, enclosingPaths, makeAlong]
  split
  · rfl
  · next hne =>
    obtain ⟨l, hf⟩ := isDirectory_iff.mp (h hne)
    rw [makeDirectory_of_find hf]
    simp only [h hne, if_true]

theorem write_of_find {b c : ByteArray} (h : t.find path = .ok (l, .file c)) :
    t.write path b = .ok (t.set l (.file b)) := by
  obtain ⟨g, hg⟩ := exists_goal_of_find h
  rw [find, hg] at h
  rw [write, hg]
  cases g with
  | reached m => cases h
  | named m name slashed =>
    simp only [] at h ⊢
    split at h
    · cases h
    · next hlimit =>
      split at h
      · cases h
      · cases h
      · next d hd =>
        split at h
        · cases h
        · next hslashed =>
          cases h
          rw [if_neg hslashed, if_neg hlimit, hd]

theorem set_set (e : Entry) : (t.set l e).set l e = t.set l e := by
  simp [set, List.filter_filter]

/-- To write the same bytes again changes nothing. -/
theorem write_again {b : ByteArray} (h : t.write path b = .ok u) : u.write path b = .ok u := by
  obtain ⟨l, -, -, rfl, hf⟩ := write_spec h
  rw [write_of_find hf, set_set]

/-- The tree is grounded, and its working directory is a directory. -/
structure WellFormed (t : Tree) : Prop where
  grounded : t.Grounded
  here : t.at? t.here = some .directory

theorem lookup_directoriesTo {here : Location} (hl : l ≠ []) (hs : l <:+ here) :
    (directoriesTo here).lookup l = some .directory := by
  induction here with
  | nil => exact absurd (List.suffix_nil.mp hs) hl
  | cons name here ih =>
    rw [directoriesTo, List.lookup_cons]
    split
    · rfl
    · next hne =>
      rcases List.suffix_cons_iff.mp hs with rfl | hs
      · exact absurd hne (by simp)
      · exact ih hs

theorem suffix_of_mem_directoriesTo {here : Location} {p : Location × Entry}
    (h : p ∈ directoriesTo here) : p.1 <:+ here := by
  induction here with
  | nil => cases h
  | cons name here ih =>
    rcases List.mem_cons.mp h with rfl | h
    · exact List.suffix_refl _
    · exact (ih h).trans (List.suffix_cons name here)

theorem at?_bare {here : Location} (hs : l <:+ here) : (bare here).at? l = some .directory := by
  cases l with
  | nil => rfl
  | cons name l => exact lookup_directoriesTo (List.cons_ne_nil name l) hs

theorem wellFormed_bare (here : Location) : (bare here).WellFormed where
  grounded := grounded_of_entries fun _ hp =>
    at?_bare ((List.tail_suffix _).trans (suffix_of_mem_directoriesTo hp))
  here := at?_bare (List.suffix_refl here)

/-- An entry can be put into a directory, unless it replaces a directory by a file. -/
theorem Grounded.set {name : String} {e : Entry} (ht : t.Grounded)
    (hl : t.at? l = some .directory)
    (he : e = .directory ∨ t.at? (name :: l) ≠ some .directory) :
    (t.set (name :: l) e).Grounded := by
  intro name' m hm
  by_cases hsame : name' :: m = name :: l
  · cases hsame
    rw [at?_set_of_ne (List.cons_ne_self name l).symm, hl]
  · rw [at?_set_of_ne hsame] at hm
    have hdirectory := ht name' m hm
    by_cases hm' : m = name :: l
    · subst hm'
      rw [at?_set_self (List.cons_ne_nil name l), he.resolve_right fun h => h hdirectory]
    · rw [at?_set_of_ne hm', hdirectory]

namespace WellFormed

theorem directory_of_walk {steps : List Step} {m : Location} (ht : t.WellFormed)
    (hl : t.at? l = some .directory) (h : t.walk l steps = .ok m) :
    t.at? m = some .directory := by
  induction steps generalizing l with
  | nil =>
    cases h
    exact hl
  | cons s steps ih =>
    rw [walk] at h
    split at h
    · cases h
    · next next hs =>
      refine ih ?_ h
      cases s with
      | here =>
        cases hs
        exact hl
      | up =>
        cases hs
        exact ht.grounded.directory_of_suffix (List.tail_suffix l) hl
      | child name =>
        rw [step] at hs
        split at hs
        · cases hs
        · split at hs
          · cases hs
          · cases hs
          · next hd =>
            cases hs
            exact hd

/-- A path names an entry of a directory. -/
theorem directory_of_goal {name : String} {slashed : Bool} (ht : t.WellFormed)
    (h : t.goal path = .ok (.named l name slashed)) : t.at? l = some .directory := by
  have hstart : t.at? (t.start (.ofPath path)) = some .directory := by
    rw [start]
    split
    · rfl
    · exact ht.here
  rcases goal_spec h with ⟨-, he⟩ | ⟨steps, s, m, -, hwalk, he⟩
  · cases he
  · cases s <;> cases he
    exact ht.directory_of_walk hstart hwalk

theorem write {b : ByteArray} (ht : t.WellFormed) (h : t.write path b = .ok u) :
    u.WellFormed := by
  obtain ⟨l, name, hg, -, hd, rfl⟩ := goal_of_write h
  exact ⟨ht.grounded.set (ht.directory_of_goal hg) (.inr hd),
    (extends_set_file (List.cons_ne_nil name l) hd).directory ht.here⟩

theorem makeDirectory (ht : t.WellFormed) (h : t.makeDirectory path = .ok u) :
    u.WellFormed := by
  obtain ⟨l, name, slashed, hg, -, hnone, rfl⟩ := goal_of_makeDirectory h
  exact ⟨ht.grounded.set (ht.directory_of_goal hg) (.inl rfl),
    (extends_set_directory (List.cons_ne_nil name l) hnone).directory ht.here⟩

theorem makeDirectories (ht : t.WellFormed) (path : String) :
    (t.makeDirectories path).1.WellFormed :=
  makeAlong_preserves (fun _ _ _ _ hu h => hu.makeDirectory h) ht

end WellFormed

end NodeDecl.Files.Tree
