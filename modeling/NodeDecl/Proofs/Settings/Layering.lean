import Mathlib
import NodeDecl.Proofs.Files.Reading
import NodeDecl.Proofs.Grammar.Names
import NodeDecl.Proofs.Settings.Choices
import NodeDecl.Proofs.Toml.Document
import NodeDecl.Settings.Loading

/-! # Layers

A layer is what one file of settings holds. Where the known keys of each layer hold values of their
kinds, and the variables name known keys too, loading amounts to making the choices of all layers
in order and those of the environment after them.
-/

namespace NodeDecl
open Files Text

theorem isNameChar_toLower_of_isBareChar {c : Char} (h : Toml.isBareChar c = true) :
    KeyPath.isNameChar c.toLower = true := by
  rw [Toml.isBareChar, Bool.or_eq_true, beq_iff_eq] at h
  rcases h with h | rfl
  · have hname : isNameChar c.toLower = true := isNameChar_toLower h
    rw [isNameChar] at hname
    rw [KeyPath.isNameChar, hname]
    rfl
  · decide

theorem toNat_lt_of_isBareChar {c : Char} (h : Toml.isBareChar c = true) : c.toNat < 128 := by
  rw [Toml.isBareChar, Bool.or_eq_true, beq_iff_eq] at h
  rcases h with h | rfl
  · have hname := isNameChar_iff.mp h
    omega
  · decide

theorem lowerCaseFrom_of_isBareChar {cs : List Char} (h : ∀ c ∈ cs, Toml.isBareChar c = true)
    (inWord : Bool) : lowerCaseFrom inWord cs = cs.map Char.toLower := by
  induction cs generalizing inWord with
  | nil => rfl
  | cons c cs ih =>
    have hlt := toNat_lt_of_isBareChar (h c List.mem_cons_self)
    have hne : c ≠ 'Σ' := by
      rintro rfl
      exact absurd hlt (by decide)
    rw [lowerCaseFrom, if_neg hne, lowerCaseChar, if_pos hlt,
      ih fun d hd => h d (List.mem_cons_of_mem c hd)]
    rfl

/-- A bare key is no path. -/
theorem KeyPath.ofKey_of_isBareKey {key : String} (h : Toml.IsBareKey key) :
    ofKey key = ⟨lowerCase key, []⟩ := by
  have hlower : (lowerCase key).toList = key.toList.map Char.toLower := by
    rw [lowerCase, String.toList_ofList, lowerCaseFrom_of_isBareChar h.2]
  have hname : ∀ c ∈ (lowerCase key).toList, isNameChar c = true := by
    rw [hlower]
    intro c hc
    obtain ⟨d, hd, rfl⟩ := List.mem_map.mp hc
    exact isNameChar_toLower_of_isBareChar (h.2 d hd)
  have hne : (lowerCase key).toList ≠ [] := by
    rw [hlower, Ne, List.map_eq_nil_iff, String.toList_eq_nil_iff]
    exact h.1
  rw [ofKey]
  simp only [List.takeWhile_eq_self_iff.mpr hname, List.dropWhile_eq_nil_iff.mpr hname, if_neg hne]
  rw [readSteps]
  simp only [String.ofList_toList]

def Data.Value.asText? : Data.Value → Option String
  | .text s => some s
  | _ => none

/-- The choice that a value under a key of a section makes. -/
def Choice.ofValue? (g k : String) (v : Data.Value) : Option Choice :=
  match g, k, v with
  | "grammar", "base_name", .text s => some (.base s)
  | "grammar", "variants", .list items => (items.mapM Data.Value.asText?).map .entries
  | "output", "target", .text s => (Target.ofName? s).map .target
  | "output", "file_name", .text s => some (.fileName s)
  | "output", "token_module", .text s => some (.tokenModule s)
  | _, _, _ => none

abbrev Layer := List (String × Data.Value)

namespace Layer

/-- The choices that the entries of a section make. -/
def sectionChoices (g : String) (entries : List (String × Data.Value)) : List Choice :=
  entries.filterMap fun e => Choice.ofValue? g e.1 e.2

theorem sectionChoices_cons (g k : String) (v : Data.Value) (entries : List (String × Data.Value)) :
    sectionChoices g ((k, v) :: entries) =
      (Choice.ofValue? g k v).toList ++ sectionChoices g entries := by
  rw [sectionChoices, List.filterMap_cons]
  cases Choice.ofValue? g k v <;> rfl

/-- The choices that a layer makes. -/
def choices (layer : Layer) : List Choice :=
  layer.flatMap fun e => match e.2 with
    | .record entries => sectionChoices e.1 entries
    | _ => []

theorem choices_cons (g : String) (v : Data.Value) (layer : Layer) :
    choices ((g, v) :: layer) = choices [(g, v)] ++ choices layer := by
  rw [choices, choices, choices, List.flatMap_cons, List.flatMap_singleton]

/-- A bare key that is none of the known ones, in any case. -/
def IsOtherKey (known : List String) (key : String) : Prop :=
  Toml.IsBareKey key ∧ lowerCase key ∉ known

/-- The known keys of a section hold values of their kinds; other keys hold any values. -/
def DocumentedSection (g : String) (entries : List (String × Data.Value)) : Prop :=
  ∀ e ∈ entries, (Choice.ofValue? g e.1 e.2).isSome ∨ IsOtherKey (knownKeys g) e.1

/-- A section is a table. -/
def IsSection (g : String) : Data.Value → Prop
  | .record entries => DocumentedSection g entries
  | _ => False

/-- The known keys of a layer are sections; other keys hold any values. -/
def Documented (layer : Layer) : Prop :=
  ∀ e ∈ layer, (e.1 ∈ ["grammar", "output"] ∧ IsSection e.1 e.2) ∨
    IsOtherKey ["grammar", "output"] e.1

instance (known : List String) (key : String) : Decidable (IsOtherKey known key) :=
  inferInstanceAs (Decidable (_ ∧ _))

instance (g : String) (entries : List (String × Data.Value)) :
    Decidable (DocumentedSection g entries) := inferInstanceAs (Decidable (∀ e ∈ entries, _))

instance (g : String) : DecidablePred (IsSection g)
  | .record entries => inferInstanceAs (Decidable (DocumentedSection g entries))
  | .nothing | .text _ | .integer _ | .decimal _ | .flag _ | .list _ => .isFalse id

instance (layer : Layer) : Decidable layer.Documented :=
  inferInstanceAs (Decidable (∀ e ∈ layer, _))

end Layer

theorem Target.eq_name_of_ofName? {name : String} {t : Target} (h : ofName? name = some t) :
    name = t.name := by
  rw [ofName?] at h
  have hname := List.find?_some h
  exact (of_decide_eq_true hname).symm

theorem Item.textsFrom_listOfData (key origin : String) {items : List Data.Value}
    {texts : List String} (h : items.mapM Data.Value.asText? = some texts) (index : Nat) :
    textsFrom key index (listOfData origin items) = .ok texts := by
  induction items generalizing texts index with
  | nil =>
    cases h
    rfl
  | cons v items ih =>
    rw [List.mapM_cons] at h
    obtain ⟨s, hs, h⟩ := Option.bind_eq_some_iff.mp h
    obtain ⟨rest, hrest, h⟩ := Option.bind_eq_some_iff.mp h
    cases h
    cases v with
    | text s' =>
      cases hs
      rw [listOfData, textsFrom, ofData, asText]
      simp only [ih hrest]
      rfl
    | _ => cases hs

namespace Choice

variable {g k : String} {v : Data.Value} {c : Choice}

/-- A choice that a value makes is read from it, and the value is no table. -/
theorem readFrom_of_ofValue? (origin : String) (h : ofValue? g k v = some c) :
    k ∈ knownKeys g ∧ ¬(Item.ofData origin v).IsTable ∧
      c.ReadFrom g k (.ofData origin v) := by
  unfold ofValue? at h
  split at h
  · cases h
    exact ⟨by decide, nofun, rfl, rfl, rfl⟩
  · obtain ⟨texts, htexts, rfl⟩ := Option.map_eq_some_iff.mp h
    refine ⟨by decide, nofun, rfl, rfl, ?_⟩
    rw [Item.ofData]
    exact Item.textsFrom_listOfData _ _ htexts 0
  · obtain ⟨t, ht, rfl⟩ := Option.map_eq_some_iff.mp h
    refine ⟨by decide, nofun, rfl, rfl, ?_⟩
    rw [Target.eq_name_of_ofName? ht]
    exact Item.asTarget_name t
  · cases h
    exact ⟨by decide, nofun, rfl, rfl, rfl⟩
  · cases h
    exact ⟨by decide, nofun, rfl, rfl, rfl⟩
  · cases h

theorem lowerCase_of_mem_knownKeys (h : k ∈ knownKeys g) : lowerCase k = k := by
  have hknown : ∀ k ∈ ["base_name", "variants", "target", "file_name", "token_module"],
      lowerCase k = k := by decide +kernel
  rw [knownKeys] at h
  split at h
  · exact hknown k (List.mem_append_left ["target", "file_name", "token_module"] h)
  · split at h
    · exact hknown k (List.mem_append_right ["base_name", "variants"] h)
    · cases h

theorem ofValue?_of_isOtherKey (h : Layer.IsOtherKey (knownKeys g) k) : ofValue? g k v = none := by
  cases hc : ofValue? g k v with
  | none => rfl
  | some c =>
    have hk := (readFrom_of_ofValue? "" hc).1
    rw [Layer.IsOtherKey, lowerCase_of_mem_knownKeys hk] at h
    exact absurd hk h.2

end Choice

theorem Layer.mem_sections_of_mem_knownKeys {g k : String} (h : k ∈ knownKeys g) :
    g ∈ ["grammar", "output"] := by
  rw [knownKeys] at h
  split at h
  · next he => simp [he]
  · split at h
    · next he => simp [he]
    · cases h

theorem Layer.exists_entries_of_isSection {g : String} {v : Data.Value} (h : IsSection g v) :
    ∃ entries, v = .record entries ∧ DocumentedSection g entries := by
  cases v with
  | record entries => exact ⟨entries, rfl, h⟩
  | _ => cases h

theorem Layer.choices_of_isOtherKey {key : String} {v : Data.Value}
    (h : IsOtherKey ["grammar", "output"] key) : choices [(key, v)] = [] := by
  have hnone (k : String) (w : Data.Value) : Choice.ofValue? key k w = none := by
    cases hc : Choice.ofValue? key k w with
    | none => rfl
    | some c =>
      have hk := (Choice.readFrom_of_ofValue? "" hc).1
      have hkey := mem_sections_of_mem_knownKeys hk
      have hlower : ∀ g ∈ ["grammar", "output"], lowerCase g ∈ ["grammar", "output"] := by
        decide +kernel
      exact absurd (hlower key hkey) h.2
  rw [choices, List.flatMap_singleton]
  cases v with
  | record entries =>
    exact List.filterMap_eq_nil_iff.mpr fun e _ => hnone e.1 e.2
  | _ => rfl

namespace Item

variable {root sub v : Item} {g k origin : String} {choices : List Choice}
  {entries : List (String × Data.Value)}

/-- A key that is not known can be merged into a section. -/
theorem Carries.put_merge {s : Settings} (h : (root.put g sub).Carries s) (hk : k ∉ knownKeys g) :
    (root.put g (merge k sub v)).Carries s := by
  refine h.congr (fun g' hg' w hw => ?_) fun g' k' hk' => ?_
  · by_cases he : g' = g
    · subst he
      rw [get?_put_self] at hw
      cases hw
      exact isTable_merge
    · rw [get?_put_of_ne he] at hw
      exact h.isTable g' hg' w (by rw [get?_put_of_ne he, hw])
  · by_cases he : g' = g
    · subst he
      have hne : k' ≠ k := fun hkk => hk (hkk ▸ hk')
      rw [valueAt?_put_self, valueAt?_put_self, get?_merge_of_ne hne]
    · rw [valueAt?_put_of_ne he, valueAt?_put_of_ne he]

/-- Merging the entries of a section one by one makes their choices one by one. -/
theorem Carries.mergeAll (h : (root.put g sub).Carries (.ofChoices choices))
    (hentries : Layer.DocumentedSection g entries) :
    (root.put g (mergeAll sub (entriesOfData origin entries))).Carries
      (.ofChoices (choices ++ Layer.sectionChoices g entries)) := by
  induction entries generalizing sub choices with
  | nil =>
    rw [Layer.sectionChoices, List.filterMap_nil, List.append_nil]
    exact h
  | cons e entries ih =>
    obtain ⟨k, v⟩ := e
    have hrest : Layer.DocumentedSection g entries := fun e he =>
      hentries e (List.mem_cons_of_mem _ he)
    rw [entriesOfData, Item.mergeAll, Layer.sectionChoices_cons, ← List.append_assoc]
    rcases hentries (k, v) List.mem_cons_self with hknown | hother
    · obtain ⟨c, hc⟩ := Option.isSome_iff_exists.mp hknown
      obtain ⟨hk, htable, hread⟩ := Choice.readFrom_of_ofValue? origin hc
      rw [hc, Choice.lowerCase_of_mem_knownKeys hk]
      exact ih (h.concat (sets_put_merge htable) hread) hrest
    · rw [Choice.ofValue?_of_isOtherKey hother, Option.toList_none, List.append_nil]
      exact ih (h.put_merge hother.2) hrest

theorem Carries.setPath_section (h : root.Carries (.ofChoices choices))
    (hg : g ∈ ["grammar", "output"]) (hentries : Layer.DocumentedSection g entries) :
    (root.setPath ⟨g, []⟩ (ofData origin (.record entries))).Carries
      (.ofChoices (choices ++ Layer.sectionChoices g entries)) := by
  rw [ofData, setPath_table]
  refine Carries.mergeAll ?_ hentries
  refine h.congr (fun g' hg' w hw => ?_) fun g' k' hk' => ?_
  · by_cases he : g' = g
    · subst he
      rw [get?_put_self] at hw
      cases hw
      cases hsub : root.get? g' with
      | none => trivial
      | some w => exact h.isTable g' hg' w hsub
    · rw [get?_put_of_ne he] at hw
      exact h.isTable g' hg' w hw
  · by_cases he : g' = g
    · subst he
      rw [valueAt?_put_self, get?_getD_table]
    · rw [valueAt?_put_of_ne he]

theorem Carries.setPath_other {s : Settings} (h : root.Carries s)
    (hk : k ∉ ["grammar", "output"]) : (root.setPath ⟨k, []⟩ v).Carries s := by
  have hset : root.setPath ⟨k, []⟩ v = merge k root v := by rw [setPath, setAt]
  have hget : ∀ g ∈ ["grammar", "output"], (merge k root v).get? g = root.get? g :=
    fun g hg => get?_merge_of_ne fun he => hk (he ▸ hg)
  rw [hset]
  refine h.congr (fun g hg w hw => h.isTable g hg w (hget g hg ▸ hw)) fun g k' hk' => ?_
  rw [valueAt?, hget g (Layer.mem_sections_of_mem_knownKeys hk'), valueAt?]

theorem carries_empty : (table none []).Carries (.ofChoices []) :=
  ⟨nofun, rfl, rfl, rfl, rfl, rfl⟩

/-- Setting the entries of a layer one by one makes the choices of the layer. -/
theorem Carries.setAll_layer {layer : Layer} (h : root.Carries (.ofChoices choices))
    (hlayer : layer.Documented) : (root.setAll (entriesOfData origin layer)).Carries
      (.ofChoices (choices ++ layer.choices)) := by
  induction layer generalizing root choices with
  | nil =>
    rw [Layer.choices, List.flatMap_nil, List.append_nil]
    exact h
  | cons e layer ih =>
    obtain ⟨g, v⟩ := e
    have hrest : Layer.Documented layer := fun e he => hlayer e (List.mem_cons_of_mem _ he)
    rw [entriesOfData, setAll, List.foldl_cons, Layer.choices_cons, ← List.append_assoc]
    refine ih ?_ hrest
    rcases hlayer (g, v) List.mem_cons_self with ⟨hg, hsection⟩ | hother
    · obtain ⟨entries, rfl, hentries⟩ := Layer.exists_entries_of_isSection hsection
      have hpath : KeyPath.ofKey g = ⟨g, []⟩ := by
        have hall : ∀ g ∈ ["grammar", "output"], KeyPath.ofKey g = ⟨g, []⟩ := by decide +kernel
        exact hall g hg
      rw [hpath, Layer.choices, List.flatMap_singleton]
      exact h.setPath_section hg hentries
    · rw [KeyPath.ofKey_of_isBareKey hother.1, Layer.choices_of_isOtherKey hother, List.append_nil]
      exact h.setPath_other hother.2

end Item

/-- The value of a variable is no truth value, whole number or decimal. -/
def IsWord (value : String) : Prop :=
  lowerCase value ≠ "true" ∧ lowerCase value ≠ "false" ∧
    (readInteger? value.toList).filter fitsInt64 = none ∧ Binary64.read? value.toList = none

instance (value : String) : Decidable (IsWord value) := inferInstanceAs (Decidable (_ ∧ _))

theorem IsWord.ofVariable {value : String} (h : IsWord value) :
    Item.ofVariable value = .text value := by
  obtain ⟨htrue, hfalse, hinteger, hdecimal⟩ := h
  rw [Item.ofVariable]
  simp only [if_neg htrue, if_neg hfalse, hinteger, hdecimal]

section

variable {bindings : List (String × String)} {name : String}

/-- A variable that is not for settings is passed over. -/
theorem Item.setAll_variables_of_none (h : variableKey? name = none) (root : Item)
    (value : String) : root.setAll (variableEntries ((name, value) :: bindings)) =
      root.setAll (variableEntries bindings) := by
  rw [variableEntries, List.filterMap_cons, h]
  rfl

/-- A variable for settings is set before those that follow it. -/
theorem Item.setAll_variables_of_some {key : String} (h : variableKey? name = some key)
    (root : Item) (value : String) :
    root.setAll (variableEntries ((name, value) :: bindings)) =
      (root.setPath (.ofKey key) (.ofVariable value)).setAll (variableEntries bindings) := by
  rw [variableEntries, List.filterMap_cons, h]
  exact List.foldl_cons ..

end

/-- The choice that the value of a variable makes for the key that its name sets. -/
def Choice.ofVariable? (key value : String) : Option Choice :=
  match key with
  | "grammar.base_name" => some (.base value)
  | "output.target" => (Target.ofName? value).map .target
  | "output.file_name" => some (.fileName value)
  | "output.token_module" => some (.tokenModule value)
  | _ => none

theorem Choice.readFrom_of_ofVariable? {key value : String} {c : Choice}
    (h : ofVariable? key value = some c) :
    ∃ g k, KeyPath.ofKey key = ⟨g, [.key k]⟩ ∧ c.ReadFrom g k (.text value) := by
  unfold ofVariable? at h
  split at h
  · cases h
    exact ⟨"grammar", "base_name", by decide +kernel, rfl, rfl, rfl⟩
  · obtain ⟨t, ht, rfl⟩ := Option.map_eq_some_iff.mp h
    refine ⟨"output", "target", by decide +kernel, rfl, rfl, ?_⟩
    rw [Target.eq_name_of_ofName? ht]
    exact Item.asTarget_name t
  · cases h
    exact ⟨"output", "file_name", by decide +kernel, rfl, rfl, rfl⟩
  · cases h
    exact ⟨"output", "token_module", by decide +kernel, rfl, rfl, rfl⟩
  · cases h

/-- The choices that the environment makes. -/
def environmentChoices (bindings : List (String × String)) : List Choice :=
  bindings.filterMap fun v => (variableKey? v.1).bind (Choice.ofVariable? · v.2)

/-- The variables for settings name known keys, and their values are words of the right kind. -/
def DocumentedEnvironment (bindings : List (String × String)) : Prop :=
  ∀ v ∈ bindings, ∀ key ∈ variableKey? v.1,
    IsWord v.2 ∧ (Choice.ofVariable? key v.2).isSome

instance (bindings : List (String × String)) : Decidable (DocumentedEnvironment bindings) :=
  inferInstanceAs (Decidable (∀ v ∈ bindings, _))

theorem Item.Carries.setAll_variables {root : Item} {choices : List Choice}
    {bindings : List (String × String)} (h : root.Carries (.ofChoices choices))
    (henvironment : DocumentedEnvironment bindings) :
    (root.setAll (variableEntries bindings)).Carries
      (.ofChoices (choices ++ environmentChoices bindings)) := by
  induction bindings generalizing root choices with
  | nil =>
    rw [environmentChoices, List.filterMap_nil, List.append_nil]
    exact h
  | cons e bindings ih =>
    obtain ⟨name, value⟩ := e
    have hrest : DocumentedEnvironment bindings := fun v hv =>
      henvironment v (List.mem_cons_of_mem _ hv)
    rw [environmentChoices, List.filterMap_cons]
    cases hkey : variableKey? name with
    | none =>
      rw [setAll_variables_of_none hkey]
      exact ih h hrest
    | some key =>
      obtain ⟨hword, hsome⟩ := henvironment (name, value) List.mem_cons_self key hkey
      obtain ⟨c, hc⟩ := Option.isSome_iff_exists.mp hsome
      obtain ⟨g, k, hpath, hread⟩ := Choice.readFrom_of_ofVariable? hc
      have hset : Sets g k (.text value) root (root.setPath (.ofKey key) (.ofVariable value)) := by
        rw [hpath, hword.ofVariable]
        exact sets_setPath nofun
      simp only [Option.bind_some, hc]
      rw [setAll_variables_of_some hkey, List.append_cons]
      exact ih (h.concat hset hread) hrest

/-- The file of a source is text that is read as the layer; if there need not be a file and is
none, the layer is empty. -/
def Source.Holds (t : Tree) (s : Source) (layer : Layer) : Prop :=
  (s.locate? t = none ∧ s.required = false ∧ layer = []) ∨
    ∃ path text, s.locate? t = some (path, .toml) ∧ t.readText path = .ok text ∧
      Format.toml.read? text.toList = some (.record layer)

theorem Source.Holds.entries? {s : Source} {t : Tree} {layer : Layer} (h : s.Holds t layer) :
    (s.entries? t = .ok none ∧ layer = []) ∨
      ∃ origin, s.entries? t = .ok (some (Item.entriesOfData origin layer)) := by
  rcases h with ⟨hnone, hrequired, hlayer⟩ | ⟨path, text, hlocate, htext, hread⟩
  · refine .inl ⟨?_, hlayer⟩
    rw [Source.entries?, hnone]
    simp only [hrequired, Bool.false_eq_true, if_false]
  · refine .inr ⟨shownPath t.here path, ?_⟩
    rw [Source.entries?, hlocate]
    simp only [htext, entriesIn, hread, Option.map_some, Item.ofData]
    rfl

/-- Merging the files of settings in order makes the choices of their layers in order. -/
theorem exists_mergeSources {t : Tree} {files : List Source} {layers : List Layer}
    (hfiles : List.Forall₂ (Source.Holds t) files layers)
    (hlayers : ∀ layer ∈ layers, layer.Documented) {root : Item} {choices : List Choice}
    (h : root.Carries (.ofChoices choices)) :
    ∃ merged, mergeSources t root files = .ok merged ∧
      merged.Carries (.ofChoices (choices ++ layers.flatMap Layer.choices)) := by
  induction hfiles generalizing root choices with
  | nil =>
    rw [List.flatMap_nil, List.append_nil]
    exact ⟨root, rfl, h⟩
  | @cons s layer files layers hs _ ih =>
    have hrest : ∀ layer ∈ layers, layer.Documented := fun l hl =>
      hlayers l (List.mem_cons_of_mem _ hl)
    rw [mergeSources, List.flatMap_cons, ← List.append_assoc]
    rcases hs.entries? with ⟨hnone, rfl⟩ | ⟨origin, hentries⟩
    · rw [hnone, Layer.choices, List.flatMap_nil, List.append_nil]
      exact ih hrest h
    · rw [hentries]
      exact ih hrest (h.setAll_layer (hlayers layer List.mem_cons_self))

/-- Each setting is the last choice for it, in the order of the places, then of the file that is
asked for and of the environment, or its default if it is never chosen. -/
theorem Settings.load_eq_ofChoices {t : Tree} {asked? : Option String}
    {environment : Environment} {plain hidden nested user asked : Layer}
    (hplain : Source.Holds t ⟨"astgen.toml", [.toml], false⟩ plain)
    (hhidden : Source.Holds t ⟨".astgen.toml", [.toml], false⟩ hidden)
    (hnested : Source.Holds t ⟨"config/astgen.toml", [.toml], false⟩ nested)
    (huser : match environment.userPlace?.filter fun place => t.contains place with
      | some place => Source.Holds t ⟨place, Format.all, false⟩ user
      | none => user = [])
    (hasked : match asked? with
      | some name => Source.Holds t ⟨name, [.toml], true⟩ asked
      | none => asked = [])
    (hlayers : ∀ layer ∈ [plain, hidden, nested, user, asked], layer.Documented)
    (henvironment : DocumentedEnvironment environment.bindings) :
    load t asked? environment = .ok (.ofChoices
      (plain.choices ++ hidden.choices ++ nested.choices ++ user.choices ++ asked.choices ++
        environmentChoices environment.bindings)) := by
  -- the layers of the places that may be left out, each none or one
  obtain ⟨userLayers, huserFiles, huserMem, huserChoices⟩ : ∃ layers,
      List.Forall₂ (Source.Holds t)
          (userSource (environment.userPlace?.filter fun place => t.contains place)) layers ∧
        (∀ layer ∈ layers, layer = user) ∧ layers.flatMap Layer.choices = user.choices := by
    cases hplace : environment.userPlace?.filter fun place => t.contains place with
    | none =>
      rw [hplace] at huser
      exact ⟨[], .nil, nofun, by rw [show user = [] from huser]; rfl⟩
    | some place =>
      rw [hplace] at huser
      exact ⟨[user], .cons huser .nil, by simp, List.flatMap_singleton ..⟩
  obtain ⟨askedLayers, haskedFiles, haskedMem, haskedChoices⟩ : ∃ layers,
      List.Forall₂ (Source.Holds t) (askedSource asked?) layers ∧
        (∀ layer ∈ layers, layer = asked) ∧ layers.flatMap Layer.choices = asked.choices := by
    cases asked? with
    | none => exact ⟨[], .nil, nofun, by rw [show asked = [] from hasked]; rfl⟩
    | some name => exact ⟨[asked], .cons hasked .nil, by simp, List.flatMap_singleton ..⟩
  have hstandard : List.Forall₂ (Source.Holds t) standardSources [plain, hidden, nested] :=
    .cons hplain (.cons hhidden (.cons hnested .nil))
  have hfiles : List.Forall₂ (Source.Holds t) (sources t environment asked?)
      ([plain, hidden, nested] ++ userLayers ++ askedLayers) :=
    List.rel_append (List.rel_append hstandard huserFiles) haskedFiles
  have hdocumented : ∀ layer ∈ [plain, hidden, nested] ++ userLayers ++ askedLayers,
      layer.Documented := by
    intro layer hl
    refine hlayers layer ?_
    rcases List.mem_append.mp hl with hl | hl
    · rcases List.mem_append.mp hl with hl | hl
      · exact List.mem_append_left [user, asked] hl
      · simp [huserMem layer hl]
    · simp [haskedMem layer hl]
  obtain ⟨merged, hmerged, hcarries⟩ := exists_mergeSources hfiles hdocumented Item.carries_empty
  rw [load, hmerged]
  have hload := (hcarries.setAll_variables henvironment).ofLayers_eq_ok
  simpa [huserChoices, haskedChoices] using hload

def plainText : String :=
  "[grammar]\nbase_name = \"Node\"\nnotes.on = [1]\n" ++
    "[output]\ntarget = \"rust\"\nfile_name = \"a\"\n"

def askedText : String := "[grammar]\nvariants = [\"A : a: T\"]\n[output]\nfile_name = \"b\"\n"

/-- A tree with a file of settings in the working directory and another one beside it. -/
def treeWithLayers : Tree :=
  ⟨[], [(["astgen.toml"], .file plainText.toUTF8), (["my.toml"], .file askedText.toUTF8)]⟩

def baseEnvironment : Environment :=
  ⟨[("ASTGEN_GRAMMAR__BASE_NAME", "Expr"), ("HOME", "/")], none⟩

theorem Settings.load_treeWithLayers :
    load treeWithLayers (some "my.toml") baseEnvironment =
      .ok ⟨"Expr", ["A : a: T"], .rust, some "b", none⟩ := by
  have hplain : Source.Holds treeWithLayers ⟨"astgen.toml", [.toml], false⟩
      [("grammar", .record [("base_name", .text "Node"),
        ("notes", .record [("on", .list [.integer 1])])]),
       ("output", .record [("target", .text "rust"), ("file_name", .text "a")])] :=
    .inr ⟨"astgen.toml", plainText, by decide +kernel, Tree.readText_of_find rfl, by cbv⟩
  have hasked : Source.Holds treeWithLayers ⟨"my.toml", [.toml], true⟩
      [("grammar", .record [("variants", .list [.text "A : a: T"])]),
       ("output", .record [("file_name", .text "b")])] :=
    .inr ⟨"my.toml", askedText, by decide +kernel, Tree.readText_of_find rfl, by cbv⟩
  have hnone (name : String) (h : Source.locate? ⟨name, [.toml], false⟩ treeWithLayers = none) :
      Source.Holds treeWithLayers ⟨name, [.toml], false⟩ [] := .inl ⟨h, rfl, rfl⟩
  have huser : (baseEnvironment.userPlace?.filter fun place => treeWithLayers.contains place) =
      none := by decide +kernel
  have h : load treeWithLayers (some "my.toml") baseEnvironment = .ok (.ofChoices _) :=
    load_eq_ofChoices hplain (hnone ".astgen.toml" (by decide +kernel))
      (hnone "config/astgen.toml" (by decide +kernel)) (by rw [huser]) hasked
      (by decide +kernel) (by decide +kernel)
  rw [h]
  decide +kernel

/-- A document that sets no setting, with a table under the key that is reserved for moments. -/
def reservedText : String := "x = \x7b \"$__toml_private_datetime\" = \"soon\" \x7d\n"

def treeWithReserved : Tree := ⟨[], [(["astgen.toml"], .file reservedText.toUTF8)]⟩

/-- Not every document is read as a layer, although a key that is not known may hold any value: a
table that begins with the reserved key is refused if no moment stands under it. -/
theorem Settings.load_treeWithReserved :
    treeWithReserved.readText "astgen.toml" = .ok reservedText ∧
      Toml.readDocument reservedText.toList =
        some [("x", .table [("$__toml_private_datetime", .text "soon")])] ∧
      Layer.IsOtherKey ["grammar", "output"] "x" ∧
      load treeWithReserved none ⟨[], none⟩ = .error (.badDocument "astgen.toml") := by
  have htext : treeWithReserved.readText "astgen.toml" = .ok reservedText :=
    Tree.readText_of_find rfl
  have hread : Format.toml.read? reservedText.toList = none := by cbv
  have hlocate : Source.locate? ⟨"astgen.toml", [.toml], false⟩ treeWithReserved =
      some ("astgen.toml", .toml) := by decide +kernel
  have hshown : shownPath treeWithReserved.here "astgen.toml" = "astgen.toml" := by decide +kernel
  have hentries : Source.entries? ⟨"astgen.toml", [.toml], false⟩ treeWithReserved =
      .error (.badDocument "astgen.toml") := by
    rw [Source.entries?, hlocate]
    simp only [htext, entriesIn, hread, hshown]
    rfl
  refine ⟨htext, by cbv, by decide +kernel, ?_⟩
  rw [load, sources, standardSources, standardPlaces, List.map_cons, List.append_assoc,
    List.cons_append, mergeSources, hentries]

end NodeDecl
