import NodeDecl.Proofs.Files.Reading
import NodeDecl.Proofs.Files.Routes
import NodeDecl.Settings.Loading

/-! # Where loading looks

For each file of settings loading looks at some paths in order, up to the first one at which there
is a file. Two trees with the same files at the paths that are looked at give the same settings,
whatever else they hold.
-/

namespace NodeDecl
open Files

/-- The paths at which a file of settings is looked for. -/
def visited (t : Tree) : List (String × Format) → List String
  | [] => []
  | c :: rest => c.1 :: if t.isFile c.1 then [] else visited t rest

/-- The paths at which loading looks in a tree. -/
def visitedPaths (t : Tree) (environment : Environment) (asked? : Option String) : List String :=
  environment.userPlace?.toList ++
    (sources t environment asked?).flatMap fun s => visited t s.candidates

namespace Files.Tree

variable {t u : Tree} {path : String}

/-- The path leads to the same file in both trees, or to none in either. -/
def SameFile (t u : Tree) (path : String) : Prop :=
  ∀ l b, u.find path = .ok (l, .file b) ↔ t.find path = .ok (l, .file b)

theorem SameFile.isFile_eq (h : SameFile t u path) : u.isFile path = t.isFile path := by
  rw [Bool.eq_iff_iff, isFile_iff, isFile_iff]
  simp only [h _ _]

theorem SameFile.readText_eq (h : SameFile t u path) (hf : t.isFile path = true) :
    u.readText path = t.readText path := by
  obtain ⟨l, b, hb⟩ := isFile_iff.mp hf
  rw [readText, readText, read, read, hb, (h l b).mpr hb]

end Files.Tree

variable {t u : Tree} {candidates : List (String × Format)} {environment : Environment}
  {asked? : Option String}

theorem mem_visited_of_find? {c : String × Format}
    (h : (candidates.find? fun c => t.isFile c.1) = some c) :
    c.1 ∈ visited t candidates ∧ t.isFile c.1 = true := by
  have hfile := List.find?_some h
  refine ⟨?_, hfile⟩
  induction candidates with
  | nil => cases h
  | cons d rest ih =>
    rw [List.find?_cons] at h
    rw [visited]
    split at h
    · cases h
      exact List.mem_cons_self
    · next hd =>
      rw [if_neg (by rw [hd]; exact Bool.false_ne_true)]
      exact List.mem_cons_of_mem _ (ih h)

theorem find?_isFile_congr (h : ∀ path ∈ visited t candidates, Tree.SameFile t u path) :
    (candidates.find? fun c => u.isFile c.1) = candidates.find? fun c => t.isFile c.1 := by
  induction candidates with
  | nil => rfl
  | cons c rest ih =>
    rw [visited] at h
    rw [List.find?_cons, List.find?_cons, (h _ List.mem_cons_self).isFile_eq]
    cases hc : t.isFile c.1 with
    | true => rfl
    | false =>
      rw [hc, if_neg Bool.false_ne_true] at h
      exact ih fun path hp => h path (List.mem_cons_of_mem _ hp)

theorem Source.entries?_congr {s : Source} (hhere : u.here = t.here)
    (h : ∀ path ∈ visited t s.candidates, Tree.SameFile t u path) :
    s.entries? u = s.entries? t := by
  have hlocate : s.locate? u = s.locate? t := find?_isFile_congr h
  rw [entries?, entries?, hlocate, hhere]
  cases hc : s.locate? t with
  | none => rfl
  | some c =>
    obtain ⟨hmem, hfile⟩ := mem_visited_of_find? hc
    simp only [(h c.1 hmem).readText_eq hfile]

theorem mergeSources_congr {files : List Source} (h : ∀ s ∈ files, s.entries? u = s.entries? t)
    (root : Item) : mergeSources u root files = mergeSources t root files := by
  induction files generalizing root with
  | nil => rfl
  | cons s files ih =>
    have hrest := ih fun s hs => h s (List.mem_cons_of_mem _ hs)
    simp only [mergeSources, h s List.mem_cons_self, hrest]

theorem sources_congr
    (h : ∀ place ∈ environment.userPlace?, u.contains place = t.contains place) :
    sources u environment asked? = sources t environment asked? := by
  rw [sources, sources]
  cases hplace : environment.userPlace? with
  | none => rfl
  | some place => simp only [Option.filter_some, h place hplace]

theorem mem_userSource_iff {s : Source} :
    s ∈ userSource (environment.userPlace?.filter fun place => t.contains place) ↔
      ∃ place ∈ environment.userPlace?, t.contains place = true ∧
        s = ⟨place, Format.all, false⟩ := by
  simp only [userSource, List.mem_map, Option.mem_toList, Option.filter_eq_some_iff,
    Option.mem_def, and_assoc, eq_comm (a := s)]

theorem mem_sources {s : Source} (h : s ∈ sources t environment asked?) :
    s ∈ standardSources ∨ (∃ place ∈ environment.userPlace?, t.contains place = true ∧
      s = ⟨place, Format.all, false⟩) ∨ s ∈ askedSource asked? := by
  rw [sources, List.mem_append, List.mem_append, mem_userSource_iff, or_assoc] at h
  exact h

theorem mergeSources_sources_congr (hhere : u.here = t.here)
    (hcontains : ∀ place ∈ environment.userPlace?, u.contains place = t.contains place)
    (h : ∀ path ∈ visitedPaths t environment asked?, Tree.SameFile t u path) (root : Item) :
    mergeSources u root (sources u environment asked?) =
      mergeSources t root (sources t environment asked?) := by
  rw [sources_congr hcontains]
  refine mergeSources_congr (fun s hs => Source.entries?_congr hhere fun path hp => ?_) root
  exact h path (List.mem_append_right _ (List.mem_flatMap.mpr ⟨s, hs, hp⟩))

/-- The settings depend on the files at the visited paths only. -/
theorem Settings.load_congr (hhere : u.here = t.here)
    (hcontains : ∀ place ∈ environment.userPlace?, u.contains place = t.contains place)
    (h : ∀ path ∈ visitedPaths t environment asked?, Tree.SameFile t u path) :
    load u asked? environment = load t asked? environment := by
  rw [load, load, mergeSources_sources_congr hhere hcontains h]

/-- The path with another extension is a name in the same directory: its other steps are the same,
up to steps that stay where they are. -/
theorem beside_of_withExtension? {path extension other : String} (hnamed : Tree.Named path)
    (hname : extension ≠ "" ∧ '/' ∉ extension.toList)
    (h : withExtension? path extension = some other) : Tree.Beside path other := by
  obtain ⟨steps, name, hsteps⟩ := hnamed
  obtain ⟨plain, hplain, hwalk⟩ := Route.plainSteps_concat hsteps
  have hother : other = joinPath (pathOfSteps (Route.ofPath path).fromRoot plain)
      (name ++ "." ++ extension) := by
    rw [withExtension?, fileName?, hplain, List.getLast?_concat, List.dropLast_concat] at h
    exact (Option.some.inj h).symm
  have hsub : ∀ s ∈ plain, s.Plain := fun s hs => Route.plain_of_mem_steps s
    (Route.plainSteps_subset _ (by rw [hplain]; exact List.mem_append_left _ hs))
  have hlast : (Step.child name).Plain :=
    Route.plain_of_mem_steps _ (by rw [hsteps]; exact List.mem_append_right _ List.mem_cons_self)
  have hslash : '/' ∉ (name ++ "." ++ extension).toList := by
    have hnot : '/' ∉ name.toList := hlast.2.1
    simp [String.toList_append, hnot, hname.2]
  have hlength : 3 ≤ (name ++ "." ++ extension).length := by
    have hn : 0 < name.toList.length := List.length_pos_iff.mpr hlast.1
    have he : 0 < extension.toList.length := List.length_pos_iff.mpr (by simpa using hname.1)
    have hdot : ".".length = 1 := rfl
    rw [String.length_toList] at hn he
    rw [String.length_append, String.length_append, hdot]
    omega
  have hroot : (Route.ofPath other).fromRoot = (Route.ofPath path).fromRoot := by
    rw [hother, Route.fromRoot_joinPath hslash, fromRoot_ofPath_pathOfSteps hsub]
  refine ⟨hroot, steps, name, plain, name ++ "." ++ extension, hsteps, ?_, hwalk⟩
  rw [hother, Route.steps_joinPath (Step.plain_child hslash hlength), steps_ofPath_pathOfSteps hsub]

theorem mem_candidates_of_mem_visited {path : String} (h : path ∈ visited t candidates) :
    ∃ c ∈ candidates, c.1 = path := by
  induction candidates with
  | nil => cases h
  | cons c rest ih =>
    rw [visited] at h
    rcases List.mem_cons.mp h with rfl | h
    · exact ⟨c, List.mem_cons_self, rfl⟩
    · split at h
      · cases h
      · obtain ⟨d, hd, he⟩ := ih h
        exact ⟨d, List.mem_cons_of_mem _ hd, he⟩

theorem downward_of_mem_candidates {s : Source} (hs : s ∈ standardSources)
    {c : String × Format} (hc : c ∈ s.candidates) : Tree.Downward c.1 := by
  have hall : ∀ s ∈ standardSources, ∀ c ∈ s.candidates, Tree.Downward c.1 := by
    decide +kernel
  exact hall s hs c hc

theorem named_userPlace {place : String} (h : environment.userPlace? = some place) :
    Tree.Named place := by
  obtain ⟨directory, -, rfl⟩ := Option.map_eq_some_iff.mp h
  exact ⟨_, _, Route.steps_joinPath (Step.plain_child (by decide) (by decide))⟩

/-- A candidate for a file in any format is the place itself or a name beside it. -/
theorem mem_candidates_userSource {place : String} {c : String × Format} (hplace : Tree.Named place)
    (hc : c ∈ Source.candidates ⟨place, Format.all, false⟩) :
    c.1 = place ∨ Tree.Beside place c.1 := by
  have hextensions : ∀ f ∈ Format.all, ∀ e ∈ f.extensions, e ≠ "" ∧ '/' ∉ e.toList := by decide
  rw [Source.candidates] at hc
  rcases List.mem_append.mp hc with hc | hc
  · obtain ⟨f, -, rfl⟩ := List.mem_map.mp hc
    exact .inl rfl
  · obtain ⟨f, hf, hc⟩ := List.mem_flatMap.mp hc
    obtain ⟨extension, he, hfound⟩ := List.mem_filterMap.mp hc
    obtain ⟨other, hother, rfl⟩ := Option.map_eq_some_iff.mp hfound
    exact .inr (beside_of_withExtension? hplace (hextensions f hf extension he) hother)

theorem exists_entries?_of_mergeSources {files : List Source} {root merged : Item}
    (h : mergeSources t root files = .ok merged) :
    ∀ s ∈ files, ∃ found, s.entries? t = .ok found := by
  induction files generalizing root with
  | nil => nofun
  | cons s files ih =>
    rw [mergeSources] at h
    intro s' hs'
    rcases List.mem_cons.mp hs' with rfl | hs'
    · split at h
      · cases h
      · next hnone => exact ⟨none, hnone⟩
      · next entries hentries => exact ⟨some entries, hentries⟩
    · split at h
      · cases h
      · exact ih h s' hs'
      · exact ih h s' hs'

/-- A file that is asked for is found when the settings are loaded. -/
theorem locate?_of_load {name : String} {s : Settings}
    (h : Settings.load t (some name) environment = .ok s) :
    ∃ c, Source.locate? ⟨name, [.toml], true⟩ t = some c := by
  have hmem : ⟨name, [.toml], true⟩ ∈ sources t environment (some name) :=
    List.mem_append_right _ List.mem_cons_self
  rw [Settings.load] at h
  split at h
  · cases h
  · next root hroot =>
    obtain ⟨found, hfound⟩ := exists_entries?_of_mergeSources hroot _ hmem
    rw [Source.entries?] at hfound
    cases hlocate : Source.locate? ⟨name, [.toml], true⟩ t with
    | none =>
      rw [hlocate] at hfound
      cases hfound
    | some c => exact ⟨c, rfl⟩

/-- The file that is asked for is looked for by its name and, if there is none, with the extension
of the format after it. -/
theorem candidates_asked (name : String) : Source.candidates ⟨name, [.toml], true⟩ =
    (name, .toml) :: (withExtension? name "toml").toList.map (·, .toml) := by
  rw [Source.candidates]
  cases h : withExtension? name "toml" <;> simp [Format.extensions, h]

/-- What is found once the tree has grown, where loading looks for a file that is asked for, was
found before. -/
theorem find_of_visited_asked {name path : String} {c : String × Format} {l : Location}
    {b : ByteArray} (h : Tree.Extends t u)
    (hlocate : Source.locate? ⟨name, [.toml], true⟩ t = some c)
    (hpath : path ∈ visited t (Source.candidates ⟨name, [.toml], true⟩))
    (hu : u.find path = .ok (l, .file b)) (hat : u.at? l = t.at? l) :
    t.find path = .ok (l, .file b) := by
  rw [Source.locate?, candidates_asked] at hlocate
  rw [candidates_asked, visited] at hpath
  cases hname : t.isFile name with
  | true =>
    rw [hname, if_pos rfl] at hpath
    cases List.mem_singleton.mp hpath
    obtain ⟨m, d, hm⟩ := Tree.isFile_iff.mp hname
    exact h.find_of_denotes ⟨_, hm⟩ hu hat
  | false =>
    rw [List.find?_cons_of_neg (by simp [hname])] at hlocate
    rw [hname, if_neg Bool.false_ne_true] at hpath
    cases hother : withExtension? name "toml" with
    | none =>
      rw [hother] at hlocate
      cases hlocate
    | some other =>
      rw [hother] at hlocate hpath
      have hvisited : visited t [(other, .toml)] = [other] := by simp [visited]
      obtain ⟨hmem, hfile⟩ := mem_visited_of_find? hlocate
      rw [Option.toList_some, List.map_singleton, hvisited, List.mem_singleton] at hmem
      obtain ⟨m, d, hm⟩ := Tree.isFile_iff.mp hfile
      rw [hmem] at hm
      rcases List.mem_cons.mp hpath with rfl | hpath
      · have hbeside := beside_of_withExtension? (Tree.named_of_find_file hu)
          ⟨by decide, by decide⟩ hother
        exact h.find_of_beside hbeside.symm ⟨_, hm⟩ hu hat
      · rw [Option.toList_some, List.map_singleton, hvisited, List.mem_singleton] at hpath
        rw [hpath] at hu ⊢
        exact h.find_of_denotes ⟨_, hm⟩ hu hat

/-- What is found once the tree has grown, where loading looks for the settings of the user, was
found before. -/
theorem find_of_visited_user {place path : String} {l : Location} {b : ByteArray}
    (h : Tree.Extends t u) (hplace : environment.userPlace? = some place)
    (hcontains : t.contains place = true)
    (hpath : path ∈ visited t (Source.candidates ⟨place, Format.all, false⟩))
    (hu : u.find path = .ok (l, .file b)) (hat : u.at? l = t.at? l) :
    t.find path = .ok (l, .file b) := by
  obtain ⟨m, hm⟩ := Tree.contains_iff.mp hcontains
  obtain ⟨c, hc, rfl⟩ := mem_candidates_of_mem_visited hpath
  rcases mem_candidates_userSource (named_userPlace hplace) hc with he | hbeside
  · rw [he] at hu ⊢
    exact h.find_of_denotes hm hu hat
  · exact h.find_of_beside hbeside hm hu hat

/-- Loading gives the same settings once the tree has grown, if nothing changed at the ends of the
paths at which it looked, and the settings of the user are not reached by entering and leaving a
new directory. -/
theorem Settings.load_of_extends {s : Settings} (ht : t.Grounded) (h : Tree.Extends t u)
    (hload : load t asked? environment = .ok s)
    (hat : ∀ path ∈ visitedPaths t environment asked?, ∀ l, u.Denotes path l → u.at? l = t.at? l)
    (hleft : ∀ place ∈ environment.userPlace?, u.contains place = true → ∀ l ∈ u.leftOn place,
      t.at? l = none → u.at? l ≠ some .directory) :
    load u asked? environment = .ok s := by
  have hplace : ∀ place ∈ environment.userPlace?, ∀ l e,
      u.find place = .ok (l, e) → t.find place = .ok (l, e) := by
    intro place hp l e hu
    have hvisited : place ∈ visitedPaths t environment asked? :=
      List.mem_append_left _ (Option.mem_toList.mpr hp)
    have hkept := hleft place hp (Tree.contains_iff.mpr ⟨l, e, hu⟩)
    exact ht.find_of_find h (named_userPlace hp) hkept hu (hat place hvisited l ⟨e, hu⟩)
  have hcontains : ∀ place ∈ environment.userPlace?, u.contains place = t.contains place := by
    intro place hp
    rw [Bool.eq_iff_iff, Tree.contains_iff, Tree.contains_iff]
    constructor
    · rintro ⟨l, e, hu⟩
      exact ⟨l, e, hplace place hp l e hu⟩
    · rintro ⟨l, hl⟩
      exact ⟨l, h.denotes hl⟩
  have hsame : ∀ path ∈ visitedPaths t environment asked?, Tree.SameFile t u path := by
    intro path hpath l b
    constructor
    · intro hu
      have hend := hat path hpath l ⟨_, hu⟩
      rcases List.mem_append.mp hpath with hp | hpath
      · exact hplace path (Option.mem_toList.mp hp) l _ hu
      · obtain ⟨s', hs', hvisited⟩ := List.mem_flatMap.mp hpath
        rcases mem_sources hs' with hs' | ⟨place, hp, hcontained, rfl⟩ | hs'
        · obtain ⟨c, hc, rfl⟩ := mem_candidates_of_mem_visited hvisited
          have hdown := downward_of_mem_candidates hs' hc
          refine ht.find_of_find h hdown.named (fun k hk => ?_) hu hend
          rw [hdown.leftOn_eq_nil] at hk
          cases hk
        · exact find_of_visited_user h hp hcontained hvisited hu hend
        · obtain ⟨name, hname, rfl⟩ := List.mem_map.mp hs'
          cases Option.mem_toList.mp hname
          obtain ⟨c, hc⟩ := locate?_of_load hload
          exact find_of_visited_asked h hc hvisited hu hend
    · intro hf
      exact h.find_of_at? hf (hat path hpath l (h.denotes ⟨_, hf⟩))
  rw [load_congr h.here hcontains hsame, hload]

end NodeDecl
