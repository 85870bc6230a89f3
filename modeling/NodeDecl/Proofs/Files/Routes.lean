import NodeDecl.Proofs.Files.Growth
import NodeDecl.Proofs.Text.Cutting

/-! # The paths around a path

The paths of the directories around a path are written from its first steps, and are read as
these steps again. To go along them is to go along a beginning of the path, since a step that
stays where it is may be left out.
-/

namespace NodeDecl.Files
open Text

/-- The text of the step is a part of a path, and is read as the step. -/
def Step.Plain (s : Step) : Prop :=
  s.text.toList ≠ [] ∧ '/' ∉ s.text.toList ∧ Step.ofPart s.text.toList = s

theorem Step.plain_ofPart {part : List Char} (hne : part ≠ []) (hslash : '/' ∉ part) :
    (Step.ofPart part).Plain := by
  have htext : (Step.ofPart part).text.toList = part := by
    rw [ofPart]
    split
    · next h => rw [h]; rfl
    · split
      · next h => rw [h]; rfl
      · exact String.toList_ofList
  rw [Plain, htext]
  exact ⟨hne, hslash, rfl⟩

theorem Route.plain_of_mem_steps {path : String} : ∀ s ∈ (Route.ofPath path).steps, s.Plain := by
  intro s hs
  rcases List.mem_map.mp hs with ⟨part, hpart, rfl⟩
  rcases List.mem_filter.mp hpart with ⟨hmem, hne⟩
  exact Step.plain_ofPart (by simpa using hne) (not_mem_of_mem_splitAt part hmem)

theorem toList_pathOfSteps (fromRoot : Bool) (steps : List Step) :
    (pathOfSteps fromRoot steps).toList = (if fromRoot then ['/'] else []) ++
      ['/'].intercalate (steps.map fun s => s.text.toList) := by
  rw [pathOfSteps, String.toList_append, String.toList_intercalate, List.map_map]
  cases fromRoot <;> rfl

/-- The parts of a joined path, without the empty ones, are those that were joined. -/
theorem filter_splitAt_intercalate {parts : List (List Char)}
    (h : ∀ part ∈ parts, part ≠ [] ∧ '/' ∉ part) :
    (Text.splitAt '/' (['/'].intercalate parts)).filter (fun part => part ≠ []) = parts := by
  by_cases hnil : parts = []
  · subst hnil
    rfl
  · rw [splitAt_intercalate hnil fun part hp => (h part hp).2, List.filter_eq_self]
    intro part hp
    exact decide_eq_true (h part hp).1

theorem steps_ofPath_pathOfSteps {steps : List Step} (h : ∀ s ∈ steps, s.Plain)
    (fromRoot : Bool) : (Route.ofPath (pathOfSteps fromRoot steps)).steps = steps := by
  have hparts : ∀ part ∈ steps.map fun s => s.text.toList, part ≠ [] ∧ '/' ∉ part := by
    intro part hp
    rcases List.mem_map.mp hp with ⟨s, hs, rfl⟩
    exact ⟨(h s hs).1, (h s hs).2.1⟩
  have hback : (steps.map fun s => s.text.toList).map Step.ofPart = steps := by
    rw [List.map_map]
    conv_rhs => rw [← List.map_id steps]
    exact List.map_congr_left fun s hs => (h s hs).2.2
  rw [Route.ofPath]
  simp only [toList_pathOfSteps]
  cases fromRoot with
  | false =>
    rw [if_neg Bool.false_ne_true, List.nil_append, filter_splitAt_intercalate hparts, hback]
  | true =>
    have hsplit (body : List Char) : Text.splitAt '/' ('/' :: body) =
        [] :: Text.splitAt '/' body := splitAt_append List.not_mem_nil body
    rw [if_pos rfl, List.singleton_append, hsplit, List.filter_cons_of_neg (by decide),
      filter_splitAt_intercalate hparts, hback]

theorem fromRoot_ofPath_pathOfSteps {steps : List Step} (h : ∀ s ∈ steps, s.Plain)
    (fromRoot : Bool) : (Route.ofPath (pathOfSteps fromRoot steps)).fromRoot = fromRoot := by
  rw [Route.ofPath]
  simp only [toList_pathOfSteps]
  cases fromRoot with
  | true => rfl
  | false =>
    rw [if_neg Bool.false_ne_true, List.nil_append]
    cases steps with
    | nil => rfl
    | cons s steps =>
      rcases h s List.mem_cons_self with ⟨hne, hslash, -⟩
      rcases List.exists_cons_of_ne_nil hne with ⟨c, cs, hc⟩
      rw [hc, List.mem_cons, not_or] at hslash
      have hhead : (['/'].intercalate ((s :: steps).map fun s => s.text.toList)).head? =
          some c := by
        cases steps with
        | nil => simp [hc]
        | cons t steps => simp [List.intercalate, hc]
      rw [hhead]
      simpa using Ne.symm hslash.1

namespace Tree

variable {t : Tree} {l : Location}

/-- A beginning of the path is a walk to the location. -/
def LeadsThrough (t : Tree) (path : String) (l : Location) : Prop :=
  ∃ steps, steps <+: (Route.ofPath path).steps ∧
    t.walk (t.start (Route.ofPath path)) steps = .ok l

theorem Extends.leadsThrough {u : Tree} {path : String} (h : Extends t u)
    (hl : t.LeadsThrough path l) : u.LeadsThrough path l := by
  rcases hl with ⟨steps, hsteps, hw⟩
  have hstart : u.start (Route.ofPath path) = t.start (Route.ofPath path) := by
    rw [start, start, h.here]
  rw [← hstart] at hw
  exact ⟨steps, hsteps, h.walk hw⟩

theorem walk_filter_here (steps : List Step) :
    t.walk l (steps.filter (· ≠ .here)) = t.walk l steps := by
  induction steps generalizing l with
  | nil => rfl
  | cons s steps ih =>
    by_cases hs : s = .here
    · subst hs
      rw [List.filter_cons_of_neg (by decide), ih, walk]
      rfl
    · rw [List.filter_cons_of_pos (by simpa using hs), walk, walk]
      split
      · rfl
      · exact ih

end Tree

theorem Route.plainSteps_subset (r : Route) : r.plainSteps ⊆ r.steps := by
  rw [plainSteps]
  split
  · next rest hsteps =>
    rw [hsteps]
    split
    · exact List.subset_cons_of_subset _ (List.filter_subset_self _)
    · exact List.cons_subset_cons _ (List.filter_subset_self _)
  · exact List.filter_subset_self _

theorem walk_of_prefix_filter_here {steps rest : List Step}
    (h : steps <+: rest.filter (· ≠ .here)) : ∃ whole, whole <+: rest ∧
      ∀ (t : Tree) (l : Location), t.walk l whole = t.walk l steps := by
  rcases List.prefix_filter_iff.mp h with ⟨whole, hwhole, rfl⟩
  exact ⟨whole, hwhole, fun t l => (Tree.walk_filter_here whole).symm⟩

/-- Where the plain steps lead from their start, a beginning of all steps leads as well. -/
theorem Route.walk_of_prefix_plainSteps {r : Route} {steps : List Step}
    (h : steps <+: r.plainSteps) : ∃ whole, whole <+: r.steps ∧
      ∀ (t : Tree) (l : Location), t.walk l whole = t.walk l steps := by
  rw [plainSteps] at h
  split at h
  · next rest hsteps =>
    rw [hsteps]
    split at h
    · rcases walk_of_prefix_filter_here h with ⟨whole, hwhole, hw⟩
      exact ⟨.here :: whole, List.cons_prefix_cons.mpr ⟨rfl, hwhole⟩, fun t l => hw t l⟩
    · cases steps with
      | nil => exact ⟨[], List.nil_prefix, fun t l => rfl⟩
      | cons s steps =>
        rcases List.cons_prefix_cons.mp h with ⟨rfl, htail⟩
        rcases walk_of_prefix_filter_here htail with ⟨whole, hwhole, hw⟩
        exact ⟨.here :: whole, List.cons_prefix_cons.mpr ⟨rfl, hwhole⟩, fun t l => hw t l⟩
  · exact walk_of_prefix_filter_here h

/-- A directory that a path around another path leads to lies on the way along the other path. -/
theorem Tree.leadsThrough_of_find {t : Tree} {l : Location} {path around : String}
    (hp : around ∈ enclosingPaths path) (h : t.find around = .ok (l, .directory)) :
    t.LeadsThrough path l := by
  have hwalk := walk_of_find h
  rcases List.mem_cons.mp hp with rfl | hp
  · exact ⟨_, List.prefix_refl _, hwalk⟩
  · rcases List.mem_map.mp hp with ⟨i, -, rfl⟩
    generalize hn : (Route.ofPath path).plainSteps.length - 1 - i = n at hwalk
    have hplain : ∀ s ∈ (Route.ofPath path).plainSteps.take n, s.Plain := fun s hs =>
      Route.plain_of_mem_steps s (Route.plainSteps_subset _ (List.mem_of_mem_take hs))
    have hstart := fromRoot_ofPath_pathOfSteps hplain (Route.ofPath path).fromRoot
    rw [steps_ofPath_pathOfSteps hplain, start, hstart] at hwalk
    rcases Route.walk_of_prefix_plainSteps (List.take_prefix n _) with ⟨whole, hwhole, hw⟩
    exact ⟨whole, hwhole, (hw t _).trans hwalk⟩

theorem Step.plain_child {name : String} (hslash : '/' ∉ name.toList) (hlength : 3 ≤ name.length) :
    (Step.child name).Plain := by
  have hne (short : List Char) (h : short.length < 3) : name.toList ≠ short := by
    intro he
    rw [← String.length_toList, he] at hlength
    omega
  refine ⟨hne [] (by decide), hslash, ?_⟩
  rw [text, ofPart, if_neg (hne _ (by decide)), if_neg (hne _ (by decide)), String.ofList_toList]

/-- A name behind a path is one more step. -/
theorem Route.steps_joinPath {directory name : String} (h : (Step.child name).Plain) :
    (ofPath (joinPath directory name)).steps = (ofPath directory).steps ++ [.child name] := by
  obtain ⟨hne, hslash, hpart⟩ := h
  rw [Step.text] at hne hslash hpart
  have hhead : name.toList.head? ≠ some '/' := fun he => hslash (List.mem_of_head? he)
  have hname : ((Text.splitAt '/' name.toList).filter fun part => part ≠ []).map Step.ofPart =
      [.child name] := by
    rw [splitAt_eq_splitOn, List.splitOn_eq_singleton hslash,
      List.filter_cons_of_pos (by simpa using hne), List.filter_nil, List.map_singleton, hpart]
  have hbehind (before : List Char) : ((Text.splitAt '/' (before ++ '/' :: name.toList)).filter
      fun part => part ≠ []).map Step.ofPart =
        ((Text.splitAt '/' before).filter fun part => part ≠ []).map Step.ofPart ++
          [.child name] := by
    rw [splitAt_eq_splitOn, List.splitOn_append_cons_self, ← splitAt_eq_splitOn,
      ← splitAt_eq_splitOn, List.filter_append, List.map_append, hname]
  rw [joinPath, if_neg hhead]
  split
  · next h =>
    rcases h with rfl | h
    · rw [String.empty_append]
      exact hname
    · obtain ⟨before, hbefore⟩ := List.getLast?_eq_some_iff.mp h
      have htext : (directory ++ name).toList = before ++ '/' :: name.toList := by
        rw [String.toList_append, hbefore, List.append_assoc, List.singleton_append]
      simp only [ofPath, htext, hbehind, hbefore]
      rw [splitAt_eq_splitOn, splitAt_eq_splitOn, List.splitOn_append_cons_self, List.filter_append]
      simp
  · have htext : (directory ++ "/" ++ name).toList = directory.toList ++ '/' :: name.toList := by
      rw [String.toList_append, String.toList_append, List.append_assoc]
      rfl
    simp only [ofPath, htext, hbehind]

theorem Route.fromRoot_joinPath {directory name : String} (h : '/' ∉ name.toList) :
    (ofPath (joinPath directory name)).fromRoot = (ofPath directory).fromRoot := by
  have hhead : name.toList.head? ≠ some '/' := fun he => h (List.mem_of_head? he)
  have hkeep (hne : directory.toList ≠ []) (rest : String) :
      (ofPath (directory ++ rest)).fromRoot = (ofPath directory).fromRoot := by
    simp only [ofPath, String.toList_append, List.head?_append_of_ne_nil _ hne]
  rw [joinPath, if_neg hhead]
  by_cases hempty : directory = ""
  · subst hempty
    rw [if_pos (.inl rfl), String.empty_append]
    simpa [ofPath] using hhead
  · have hne : directory.toList ≠ [] := by simpa using hempty
    split
    · exact hkeep hne name
    · rw [String.append_assoc]
      exact hkeep hne _

/-- A route that ends with a name has plain steps that end with it, and those before it lead
wherever the steps before it lead. -/
theorem Route.plainSteps_concat {r : Route} {steps : List Step} {name : String}
    (h : r.steps = steps ++ [.child name]) : ∃ plain, r.plainSteps = plain ++ [.child name] ∧
      ∀ (t : Tree) (l : Location), t.walk l plain = t.walk l steps := by
  have hfilter (rest : List Step) : (rest ++ [Step.child name]).filter (· ≠ .here) =
      rest.filter (· ≠ .here) ++ [.child name] := by
    rw [List.filter_append]
    rfl
  rw [plainSteps, h]
  cases steps with
  | nil => exact ⟨[], rfl, fun t l => rfl⟩
  | cons s steps =>
    by_cases hs : s = .here
    · subst hs
      simp only [List.cons_append, hfilter]
      split
      · exact ⟨_, rfl, fun t l => Tree.walk_filter_here (.here :: steps)⟩
      · refine ⟨.here :: steps.filter (· ≠ .here), rfl, fun t l => ?_⟩
        exact Tree.walk_filter_here steps
    · refine ⟨(s :: steps).filter (· ≠ .here), ?_, fun t l => Tree.walk_filter_here _⟩
      rw [← hfilter]
      split
      · next rest he => exact absurd (List.cons.inj he).1 hs
      · rfl

end NodeDecl.Files
