import NodeDecl.Proofs.Files.Growth

/-! # Reading files

What a path leads to decides whether there is a file and what its text is. A path that leads
somewhere once a tree has grown led there before if the way was there and nothing changed at its
end.
-/

namespace NodeDecl.Files.Tree

variable {t u : Tree} {path : String} {l m : Location} {e : Entry} {g : Goal}

theorem fromUTF8?_eq_some_iff {bytes : ByteArray} {text : String} :
    String.fromUTF8? bytes = some text ↔ bytes = text.toUTF8 := by
  constructor
  · intro h
    rw [String.fromUTF8?] at h
    split at h
    · cases h
      rfl
    · cases h
  · rintro rfl
    rw [String.fromUTF8?, String.toUTF8_eq_toByteArray, dif_pos text.isValidUTF8]
    rfl

/-- A file has a text if its bytes are the encoding of the text. -/
theorem readText_eq_ok_iff {text : String} :
    t.readText path = .ok text ↔ t.read path = .ok text.toUTF8 := by
  rw [readText]
  cases t.read path with
  | error cause => simp
  | ok bytes =>
    rw [Except.ok.injEq, ← fromUTF8?_eq_some_iff]
    simp only []
    split
    · next h => simp [h]
    · next h => simp [h]

theorem readText_of_find {text : String} (h : t.find path = .ok (l, .file text.toUTF8)) :
    t.readText path = .ok text := by
  rw [readText_eq_ok_iff, read, h]

/-- Why no text is read: nothing is, or the bytes are no text. -/
theorem readText_eq_error_iff {cause : Cause} : t.readText path = .error cause ↔
    t.read path = .error cause ∨ cause = .notUtf8 ∧ ∃ bytes, t.read path = .ok bytes ∧
      ∀ text : String, bytes ≠ text.toUTF8 := by
  rw [readText]
  cases t.read path with
  | error own => simp
  | ok bytes =>
    simp only [reduceCtorEq, false_or, Except.ok.injEq, exists_eq_left', ne_eq,
      ← fromUTF8?_eq_some_iff]
    split
    · next h => simp [h, eq_comm]
    · next h => simp [h]

theorem isFile_iff : t.isFile path = true ↔ ∃ l b, t.find path = .ok (l, .file b) := by
  rw [isFile]
  constructor
  · intro h
    split at h
    · next l b hf => exact ⟨l, b, hf⟩
    · cases h
  · rintro ⟨l, b, hf⟩
    rw [hf]

theorem isDirectory_iff : t.isDirectory path = true ↔ ∃ l, t.find path = .ok (l, .directory) := by
  rw [isDirectory]
  constructor
  · intro h
    split at h
    · next l hf => exact ⟨l, hf⟩
    · cases h
  · rintro ⟨l, hf⟩
    rw [hf]

theorem contains_iff : t.contains path = true ↔ ∃ l, t.Denotes path l := by
  rw [contains]
  constructor
  · intro h
    split at h
    · next p hf => exact ⟨p.1, p.2, hf⟩
    · cases h
  · rintro ⟨l, e, hf⟩
    rw [hf]

theorem exists_goal_of_find (h : t.find path = .ok (l, e)) : ∃ g, t.goal path = .ok g := by
  rw [find] at h
  cases hg : t.goal path with
  | error cause =>
    rw [hg] at h
    cases h
  | ok g => exact ⟨g, rfl⟩

/-- A name leads to what stands under it. -/
theorem at?_of_find_named {name : String} {slashed : Bool}
    (hg : t.goal path = .ok (.named m name slashed)) (h : t.find path = .ok (l, e)) :
    l = name :: m ∧ t.at? (name :: m) = some e := by
  rw [find, hg] at h
  simp only [] at h
  split at h
  · cases h
  · split at h
    · cases h
    · next hd =>
      cases h
      exact ⟨rfl, hd⟩
    · next b hb =>
      split at h
      · cases h
      · cases h
        exact ⟨rfl, hb⟩

/-- Where a path has the same goal in two trees, it leads to what they have in common. -/
theorem find_of_goal (ht : t.goal path = .ok g) (hu : u.goal path = .ok g)
    (hfind : u.find path = .ok (l, e)) (hat : u.at? l = t.at? l) : t.find path = .ok (l, e) := by
  cases g with
  | reached m =>
    rw [find, hu] at hfind
    rw [find, ht]
    exact hfind
  | named m name slashed =>
    have hl := (at?_of_find_named hu hfind).1
    rw [hl] at hat
    rw [find, hu] at hfind
    rw [find, ht]
    simp only [hat] at hfind
    exact hfind

theorem goal_congr (h : t.walk (t.start (.ofPath path)) (Route.ofPath path).steps.dropLast =
    u.walk (u.start (.ofPath path)) (Route.ofPath path).steps.dropLast) :
    t.goal path = u.goal path := by
  rw [start, start] at h
  rw [goal, goal]
  simp only [h]

/-- A path leads to what it led to if nothing changed there while the tree grew. -/
theorem Extends.find_of_at? (h : Extends t u) (hf : t.find path = .ok (l, e))
    (hat : u.at? l = t.at? l) : u.find path = .ok (l, e) := by
  obtain ⟨g, hg⟩ := exists_goal_of_find hf
  exact find_of_goal (h.goal hg) hg hf hat.symm

theorem extends_of_set_file {b c : ByteArray} (h : t.at? l = some (.file b)) :
    Extends (t.set l (.file c)) t := by
  have hl : l ≠ [] := by
    rintro rfl
    cases h
  refine ⟨rfl, fun {m} hd => ?_, fun {m d} hf => ?_⟩
  · by_cases hm : m = l
    · subst hm
      rw [at?_set_self hl] at hd
      cases hd
    · rw [← hd, at?_set_of_ne hm]
  · by_cases hm : m = l
    · subst hm
      exact ⟨b, h⟩
    · exact ⟨d, by rw [← hf, at?_set_of_ne hm]⟩

/-- A path at which there is nothing is written by making a file. -/
theorem exists_set_of_write {b : ByteArray} (hnew : t.contains path = false)
    (h : t.write path b = .ok u) : ∃ l, l ≠ [] ∧ t.at? l = none ∧ u = t.set l (.file b) ∧
      u.find path = .ok (l, .file b) := by
  obtain ⟨l, hl, hd, rfl, hf⟩ := write_spec h
  refine ⟨l, hl, ?_, rfl, hf⟩
  match hat : t.at? l with
  | none => rfl
  | some .directory => exact absurd hat hd
  | some (.file c) =>
    have hcontains := contains_iff.mpr ⟨l, (extends_of_set_file hat).denotes ⟨_, hf⟩⟩
    rw [hnew] at hcontains
    cases hcontains

/-- Paths that do not lead to a new file lead where they led before. -/
theorem find_set_file_iff {b : ByteArray} (hl : l ≠ []) (hnone : t.at? l = none)
    (hpath : ¬(t.set l (.file b)).Denotes path l) :
    (t.set l (.file b)).find path = .ok (m, e) ↔ t.find path = .ok (m, e) := by
  have hgrows : Extends t (t.set l (.file b)) := extends_set_file hl (by rw [hnone]; nofun)
  have hback : Within (t.set l (.file b)) t := by
    refine ⟨rfl, fun {k} hd => ?_⟩
    have hk : k ≠ l := by
      rintro rfl
      rw [at?_set_self hl] at hd
      cases hd
    rw [← hd, at?_set_of_ne hk]
  have hat (k : Location) (hk : (t.set l (.file b)).Denotes path k) :
      (t.set l (.file b)).at? k = t.at? k :=
    at?_set_of_ne fun he => hpath (he ▸ hk)
  constructor
  · intro h
    obtain ⟨g, hg⟩ := exists_goal_of_find h
    exact find_of_goal (hback.goal hg) hg h (hat m ⟨e, h⟩)
  · intro h
    exact hgrows.find_of_at? h (hat m (hgrows.denotes ⟨e, h⟩))

/-- Whatever stands in a tree stands in a directory of the tree, as in every file system. -/
def Grounded (t : Tree) : Prop := ∀ name l, t.at? (name :: l) ≠ none → t.at? l = some .directory

theorem grounded_of_entries (h : ∀ p ∈ t.entries, t.at? p.1.tail = some .directory) :
    t.Grounded := by
  intro name l hl
  obtain ⟨e, he⟩ := Option.ne_none_iff_exists'.mp hl
  obtain ⟨before, after, hentries, -⟩ := List.lookup_eq_some_iff.mp he
  exact h (name :: l, e) (by rw [hentries]; exact List.mem_append_right _ List.mem_cons_self)

theorem Grounded.directory_of_suffix (h : t.Grounded) (hs : l <:+ m)
    (hm : t.at? m = some .directory) : t.at? l = some .directory := by
  induction m with
  | nil => rw [List.suffix_nil.mp hs]; exact hm
  | cons name m ih =>
    rcases List.suffix_cons_iff.mp hs with rfl | hs
    · exact hm
    · exact ih hs (h name m (by rw [hm]; nofun))

/-- The locations that a walk leaves by steps to the enclosing directory. -/
def leftAlong (t : Tree) (l : Location) : List Step → List Location
  | [] => []
  | s :: rest => (if s = .up then [l] else []) ++ match t.step l s with
    | .error _ => []
    | .ok next => t.leftAlong next rest

/-- The locations that a path leaves by steps to the enclosing directory. -/
def leftOn (t : Tree) (path : String) : List Location :=
  t.leftAlong (t.start (.ofPath path)) (Route.ofPath path).steps

theorem leftAlong_subset_append (steps rest : List Step) :
    t.leftAlong l steps ⊆ t.leftAlong l (steps ++ rest) := by
  induction steps generalizing l with
  | nil => exact List.nil_subset _
  | cons s steps ih =>
    rw [List.cons_append, leftAlong, leftAlong]
    refine List.append_subset.mpr ⟨List.subset_append_left _ _, ?_⟩
    refine List.Subset.trans ?_ (List.subset_append_right _ _)
    split
    · exact List.nil_subset _
    · exact ih

theorem leftAlong_of_not_up {steps : List Step} (h : .up ∉ steps) : t.leftAlong l steps = [] := by
  induction steps generalizing l with
  | nil => rfl
  | cons s steps ih =>
    rw [List.mem_cons, not_or] at h
    rw [leftAlong, if_neg (Ne.symm h.1), List.nil_append]
    split
    · rfl
    · exact ih h.2

theorem Extends.directory_of_old (h : Extends t u) (hold : t.at? l ≠ none)
    (hd : u.at? l = some .directory) : t.at? l = some .directory := by
  match hat : t.at? l with
  | none => exact absurd hat hold
  | some .directory => rfl
  | some (.file b) =>
    obtain ⟨c, hc⟩ := h.file hat
    rw [hd] at hc
    cases hc

/-- A walk to an old directory in a tree that has grown leads through old directories, if it
leaves no new one by a step to the enclosing directory. -/
theorem Grounded.walk_of_walk {steps : List Step} (ht : t.Grounded) (hgrows : Extends t u)
    (hleft : ∀ k ∈ u.leftAlong l steps, t.at? k = none → u.at? k ≠ some .directory)
    (h : u.walk l steps = .ok m) (hm : t.at? m = some .directory) :
    t.walk l steps = .ok m ∧ (u.at? l = some .directory → t.at? l = some .directory) := by
  induction steps generalizing l with
  | nil =>
    cases h
    exact ⟨rfl, fun _ => hm⟩
  | cons s steps ih =>
    rw [walk] at h ⊢
    split at h
    · cases h
    · next next hs =>
      rw [leftAlong, hs] at hleft
      obtain ⟨hwalk, hnext⟩ := ih (fun k hk => hleft k (List.mem_append_right _ hk)) h
      cases s with
      | here =>
        cases hs
        exact ⟨hwalk, hnext⟩
      | up =>
        cases hs
        have hold := hleft l (List.mem_append_left _ List.mem_cons_self)
        exact ⟨hwalk, fun hd => hgrows.directory_of_old (fun hnone => hold hnone hd) hd⟩
      | child name =>
        -- what the walk enters is a directory of the old tree, and so is what it lies in
        rw [step] at hs ⊢
        split at hs
        · cases hs
        · next hlimit =>
          split at hs
          · cases hs
          · cases hs
          · next hd =>
            cases hs
            have hentered := hnext hd
            rw [if_neg hlimit, hentered]
            exact ⟨hwalk, fun _ => ht name l (hentered ▸ Option.some_ne_none _)⟩

/-- The last step of the path is a name. -/
def Named (path : String) : Prop :=
  ∃ steps name, (Route.ofPath path).steps = steps ++ [.child name]

theorem named_of_find_file {b : ByteArray} (h : t.find path = .ok (l, .file b)) : Named path := by
  obtain ⟨g, hg⟩ := exists_goal_of_find h
  rw [find, hg] at h
  rcases goal_spec hg with ⟨-, rfl⟩ | ⟨steps, s, m, hsteps, -, rfl⟩
  · cases h
  · cases s with
    | here | up => cases h
    | child name => exact ⟨steps, name, hsteps⟩

/-- All steps of the path are names. -/
def Downward (path : String) : Prop :=
  (Route.ofPath path).steps ≠ [] ∧ ∀ s ∈ (Route.ofPath path).steps, s ≠ .up ∧ s ≠ .here

instance (path : String) : Decidable (Downward path) := inferInstanceAs (Decidable (_ ∧ _))

theorem Downward.named (h : Downward path) : Named path := by
  obtain ⟨hne, hdown⟩ := h
  rcases (Route.ofPath path).steps.eq_nil_or_concat' with hnil | ⟨steps, s, hsteps⟩
  · exact absurd hnil hne
  · have hs := hdown s (by rw [hsteps]; exact List.mem_append_right _ List.mem_cons_self)
    cases s with
    | here => exact absurd rfl hs.2
    | up => exact absurd rfl hs.1
    | child name => exact ⟨steps, name, hsteps⟩

theorem Downward.leftOn_eq_nil (h : Downward path) : t.leftOn path = [] :=
  leftAlong_of_not_up fun hup => (h.2 _ hup).1 rfl

/-- A path that ends with a name leads to what it led to before the tree grew, as far as that did
not change, if it leaves no new directory by a step to the enclosing one. -/
theorem Grounded.find_of_find (ht : t.Grounded) (hgrows : Extends t u) (hnamed : Named path)
    (hleft : ∀ k ∈ u.leftOn path, t.at? k = none → u.at? k ≠ some .directory)
    (h : u.find path = .ok (l, e)) (hat : u.at? l = t.at? l) : t.find path = .ok (l, e) := by
  obtain ⟨whole, name, hwhole⟩ := hnamed
  obtain ⟨g, hg⟩ := exists_goal_of_find h
  rcases goal_spec hg with ⟨hnil, -⟩ | ⟨steps, s, m, hsteps, hwalk, rfl⟩
  · rw [hwhole] at hnil
    exact absurd hnil (List.append_ne_nil_of_right_ne_nil whole (List.cons_ne_nil _ _))
  · rw [hwhole] at hsteps
    obtain ⟨rfl, hs⟩ := List.append_inj' hsteps rfl
    cases hs
    obtain ⟨rfl, he⟩ := at?_of_find_named hg h
    have hm : t.at? m = some .directory := ht name m (by rw [← hat, he]; nofun)
    have hstart : u.start (.ofPath path) = t.start (.ofPath path) := by
      rw [start, start, hgrows.here]
    rw [leftOn, hwhole] at hleft
    have hold := (ht.walk_of_walk hgrows
      (fun k hk => hleft k (leftAlong_subset_append whole _ hk)) hwalk hm).1
    have hgoal : t.goal path = u.goal path := by
      apply goal_congr
      rw [hwhole, List.dropLast_concat, hwalk, ← hstart, hold]
    exact find_of_goal (hgoal.trans hg) hg h hat

/-- A path leads to what it led to if it led somewhere, as far as that did not change. -/
theorem Extends.find_of_denotes (h : Extends t u) (ht : t.Denotes path m)
    (hu : u.find path = .ok (l, e)) (hat : u.at? l = t.at? l) : t.find path = .ok (l, e) := by
  obtain ⟨e', ht⟩ := ht
  obtain ⟨g, hg⟩ := exists_goal_of_find ht
  exact find_of_goal hg (h.goal hg) hu hat

/-- The paths are names in the same directory, whatever the tree. -/
def Beside (path other : String) : Prop :=
  (Route.ofPath other).fromRoot = (Route.ofPath path).fromRoot ∧
    ∃ steps name around last, (Route.ofPath path).steps = steps ++ [.child name] ∧
      (Route.ofPath other).steps = around ++ [.child last] ∧
        ∀ (t : Tree) (l : Location), t.walk l around = t.walk l steps

theorem Beside.symm {other : String} : Beside path other → Beside other path := by
  rintro ⟨hroot, steps, name, around, last, hsteps, haround, hwalk⟩
  exact ⟨hroot.symm, around, last, steps, name, haround, hsteps, fun t l => (hwalk t l).symm⟩

/-- What a path leads to was there before the tree grew, as far as it did not change, if a path
beside it led somewhere. -/
theorem Extends.find_of_beside {other : String} (h : Extends t u) (hbeside : Beside other path)
    (ht : t.Denotes other m) (hu : u.find path = .ok (l, e)) (hat : u.at? l = t.at? l) :
    t.find path = .ok (l, e) := by
  obtain ⟨hroot, steps, name, around, last, hsteps, haround, hsame⟩ := hbeside
  obtain ⟨e', ht⟩ := ht
  obtain ⟨g, hg⟩ := exists_goal_of_find hu
  obtain ⟨g', hg'⟩ := exists_goal_of_find ht
  obtain ⟨k, hwalk⟩ : ∃ k, t.walk (t.start (.ofPath path)) around = .ok k := by
    rcases goal_spec hg' with ⟨hnil, -⟩ | ⟨steps', s, k, hsteps', hwalk, -⟩
    · rw [hsteps] at hnil
      exact absurd hnil (List.append_ne_nil_of_right_ne_nil steps (List.cons_ne_nil _ _))
    · rw [hsteps] at hsteps'
      obtain ⟨rfl, -⟩ := List.append_inj' hsteps' rfl
      rw [start, ← hroot] at hwalk
      exact ⟨k, (hsame t _).trans hwalk⟩
  have hstart : u.start (.ofPath path) = t.start (.ofPath path) := by rw [start, start, h.here]
  have hgoal : t.goal path = u.goal path := by
    apply goal_congr
    rw [haround, List.dropLast_concat, hstart, hwalk, h.walk hwalk]
  exact find_of_goal (hgoal.trans hg) hg hu hat

end NodeDecl.Files.Tree
