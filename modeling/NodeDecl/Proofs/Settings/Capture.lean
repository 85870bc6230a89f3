import NodeDecl.Proofs.Settings.Layering
import NodeDecl.Proofs.Settings.RoundTrip

/-! # Captured settings

Settings that were loaded are written down and merged over the layers that they came from, below
the same environment. Every known key then stands for what was written, or for what the
environment sets it to, as before; a key that was left out keeps what stood for no value before.
-/

namespace NodeDecl
open Text

namespace Settings

def optionalField (key : String) (value? : Option String) : List (String × Data.Value) :=
  value?.toList.map fun s => (key, .text s)

def grammarFields (s : Settings) : List (String × Data.Value) :=
  [("base_name", .text s.base), ("variants", .list (s.entries.map .text))]

/-- The texts of the output that may be left out. -/
def outputTexts (s : Settings) : List (String × Option String) :=
  [("file_name", s.fileName?), ("token_module", s.tokenModule?)]

def outputFields (s : Settings) : List (String × Data.Value) :=
  ("target", .text s.target.name) :: s.outputTexts.flatMap fun e => optionalField e.1 e.2

/-- The layer that the document of some settings is. -/
def writtenLayer (s : Settings) : Layer :=
  [("grammar", .record s.grammarFields), ("output", .record s.outputFields)]

theorem listToData?_map_text (texts : List String) :
    Toml.Value.listToData? (texts.map .text) = some (texts.map .text) := by
  induction texts with
  | nil => rfl
  | cons s texts ih =>
    rw [List.map_cons, Toml.Value.listToData?, ih]
    rfl

theorem read?_toToml (s : Settings) :
    Format.toml.read? s.toToml.toList = some (.record s.writtenLayer) := by
  rw [Format.read?, toToml, String.toList_ofList, readDocument_document]
  obtain ⟨base, entries, target, fileName?, tokenModule?⟩ := s
  have hentries := listToData?_map_text entries
  cases fileName? <;> cases tokenModule? <;>
    simp [writtenTable, writtenLayer, grammarFields, outputFields, outputTexts, optionalEntry,
      optionalField, Toml.Value.toData?, Toml.Value.entriesToData?, Toml.momentKey, hentries]

end Settings

namespace Item

variable {root sub : Item} {g k origin : String} {fields : List (String × Data.Value)}

/-- The fields are known keys of the section, each once, and none of them holds a table. -/
structure Plain (g : String) (fields : List (String × Data.Value)) : Prop where
  known : ∀ e ∈ fields, e.1 ∈ knownKeys g
  notTable : ∀ e ∈ fields, ¬(ofData "" e.2).IsTable
  nodup : (fields.map Prod.fst).Nodup

theorem isTable_ofData_iff {v : Data.Value} (origin' : String) :
    (ofData origin v).IsTable ↔ (ofData origin' v).IsTable := by
  cases v <;> simp [ofData, IsTable]

/-- A field that is merged into a section stands there, and other keys are kept. -/
theorem get?_mergeAll (h : Plain g fields) : (mergeAll sub (entriesOfData origin fields)).get? k =
    ((fields.lookup k).map (ofData origin)).or (sub.get? k) := by
  induction fields generalizing sub with
  | nil => rfl
  | cons e fields ih =>
    obtain ⟨key, v⟩ := e
    obtain ⟨hknown, htable, hnodup⟩ := h
    rw [List.map_cons, List.nodup_cons] at hnodup
    have hrest : Plain g fields := ⟨fun e he => hknown e (List.mem_cons_of_mem _ he),
      fun e he => htable e (List.mem_cons_of_mem _ he), hnodup.2⟩
    have hlower : lowerCase key = key :=
      Choice.lowerCase_of_mem_knownKeys (hknown (key, v) List.mem_cons_self)
    have hv : ¬(ofData origin v).IsTable := fun hv =>
      htable (key, v) List.mem_cons_self ((isTable_ofData_iff "").mp hv)
    rw [entriesOfData, mergeAll, hlower, ih hrest, merge_of_not_isTable hv, List.lookup_cons]
    by_cases hk : k = key
    · subst hk
      have hnone : fields.lookup k = none :=
        List.lookup_eq_none_iff.mpr fun e he => by
          simpa using fun hke => hnodup.1 (List.mem_map.mpr ⟨e, he, hke.symm⟩)
      rw [hnone, get?_put_self, beq_self_eq_true]
      rfl
    · rw [get?_put_of_ne hk, beq_eq_false_iff_ne.mpr hk]

theorem plain_grammarFields (s : Settings) : Plain "grammar" s.grammarFields where
  known := by simp [Settings.grammarFields, knownKeys]
  notTable := by simp [Settings.grammarFields, ofData, IsTable]
  nodup := by simp [Settings.grammarFields]

theorem plain_outputFields (s : Settings) : Plain "output" s.outputFields := by
  obtain ⟨base, entries, target, fileName?, tokenModule?⟩ := s
  constructor <;> cases fileName? <;> cases tokenModule? <;>
    simp [Settings.outputFields, Settings.outputTexts, Settings.optionalField, knownKeys, ofData, IsTable]

theorem valueAt?_setPath_record (h : Plain g fields) :
    (root.setPath ⟨g, []⟩ (ofData origin (.record fields))).valueAt? g k =
      ((fields.lookup k).map (ofData origin)).or (root.valueAt? g k) := by
  rw [ofData, setPath_table, valueAt?_put_self, get?_mergeAll h, get?_getD_table]

theorem get?_setPath_record_of_ne {g' : String} (h : g' ≠ g) :
    (root.setPath ⟨g, []⟩ (ofData origin (.record fields))).get? g' = root.get? g' := by
  rw [ofData, setPath_table, get?_put_of_ne h]

theorem valueAt?_setPath_record_of_ne {g' : String} (h : g' ≠ g) :
    (root.setPath ⟨g, []⟩ (ofData origin (.record fields))).valueAt? g' k =
      root.valueAt? g' k := by
  rw [valueAt?, get?_setPath_record_of_ne h, valueAt?]

theorem setAll_writtenLayer (root : Item) (origin : String) (s : Settings) :
    root.setAll (entriesOfData origin s.writtenLayer) =
      (root.setPath ⟨"grammar", []⟩ (ofData origin (.record s.grammarFields))).setPath
        ⟨"output", []⟩ (ofData origin (.record s.outputFields)) := by
  have hset : root.setAll (entriesOfData origin s.writtenLayer) =
      (root.setPath (.ofKey "grammar") (ofData origin (.record s.grammarFields))).setPath
        (.ofKey "output") (ofData origin (.record s.outputFields)) := rfl
  have hgrammar : KeyPath.ofKey "grammar" = ⟨"grammar", []⟩ := by decide +kernel
  have houtput : KeyPath.ofKey "output" = ⟨"output", []⟩ := by decide +kernel
  rw [hset, hgrammar, houtput]

/-- Once the written layer is merged, its fields stand in the sections, and what is not written is
kept. -/
theorem valueAt?_setAll_writtenLayer (root : Item) (origin : String) (s : Settings) (k : String) :
    (root.setAll (entriesOfData origin s.writtenLayer)).valueAt? "grammar" k =
        ((s.grammarFields.lookup k).map (ofData origin)).or (root.valueAt? "grammar" k) ∧
      (root.setAll (entriesOfData origin s.writtenLayer)).valueAt? "output" k =
        ((s.outputFields.lookup k).map (ofData origin)).or (root.valueAt? "output" k) := by
  rw [setAll_writtenLayer]
  constructor
  · rw [valueAt?_setPath_record_of_ne (by decide), valueAt?_setPath_record (plain_grammarFields s)]
  · rw [valueAt?_setPath_record (plain_outputFields s), valueAt?_setPath_record_of_ne (by decide)]

theorem isTable_of_get?_setPath_record {v : Item} (hne : fields ≠ [])
    (h : (root.setPath ⟨g, []⟩ (ofData origin (.record fields))).get? g = some v) : v.IsTable := by
  rw [ofData, setPath_table, get?_put_self] at h
  cases h
  cases fields with
  | nil => exact absurd rfl hne
  | cons e fields =>
    rw [entriesOfData, mergeAll]
    exact isTable_mergeAll isTable_merge

theorem tableSections_setAll_writtenLayer (root : Item) (origin : String) (s : Settings) :
    (root.setAll (entriesOfData origin s.writtenLayer)).TableSections := by
  rw [setAll_writtenLayer]
  intro g hg v hv
  rcases List.mem_cons.mp hg with rfl | hg
  · rw [get?_setPath_record_of_ne (by decide)] at hv
    exact isTable_of_get?_setPath_record (List.cons_ne_nil _ _) hv
  · cases List.mem_singleton.mp hg
    exact isTable_of_get?_setPath_record (List.cons_ne_nil _ _) hv

/-- The keys of texts, which are those that variables may set. -/
def scalarKeys : List String :=
  ["grammar.base_name", "output.target", "output.file_name", "output.token_module"]

/-- The variables for settings name keys of texts. -/
def ScalarEnvironment (bindings : List (String × String)) : Prop :=
  ∀ v ∈ bindings, ∀ key ∈ variableKey? v.1, key ∈ scalarKeys

instance (bindings : List (String × String)) : Decidable (ScalarEnvironment bindings) :=
  inferInstanceAs (Decidable (∀ v ∈ bindings, _))

theorem not_isTable_ofVariable (value : String) : ¬(ofVariable value).IsTable := by
  rw [ofVariable]
  split
  · exact id
  · split
    · exact id
    · split
      · exact id
      · split <;> exact id

theorem exists_sets_of_scalarKey {key : String} (h : key ∈ scalarKeys) (value : String) :
    ∃ g k, (g ≠ "grammar" ∨ k ≠ "variants") ∧
      ∀ root : Item,
        Sets g k (ofVariable value) root (root.setPath (.ofKey key) (ofVariable value)) := by
  obtain ⟨g, k, hne, hpath⟩ : ∃ g k, (g ≠ "grammar" ∨ k ≠ "variants") ∧
      KeyPath.ofKey key = ⟨g, [.key k]⟩ := by
    simp only [scalarKeys, List.mem_cons, List.not_mem_nil, or_false] at h
    rcases h with rfl | rfl | rfl | rfl
    · exact ⟨"grammar", "base_name", by decide, by decide +kernel⟩
    · exact ⟨"output", "target", by decide, by decide +kernel⟩
    · exact ⟨"output", "file_name", by decide, by decide +kernel⟩
    · exact ⟨"output", "token_module", by decide, by decide +kernel⟩
  refine ⟨g, k, hne, fun root => ?_⟩
  rw [hpath]
  exact sets_setPath (not_isTable_ofVariable value)

/-- The environment sets a key to one value whatever it is merged into, or leaves it as it is. -/
theorem valueAt?_setAll_variables {bindings : List (String × String)}
    (h : ScalarEnvironment bindings) (g k : String) :
    ((g ≠ "grammar" ∨ k ≠ "variants") ∧
      ∃ v, ∀ root : Item, (root.setAll (variableEntries bindings)).valueAt? g k = some v) ∨
    ∀ root : Item,
      (root.setAll (variableEntries bindings)).valueAt? g k = root.valueAt? g k := by
  induction bindings with
  | nil => exact .inr fun root => rfl
  | cons e bindings ih =>
    obtain ⟨name, value⟩ := e
    have hrest := ih fun v hv => h v (List.mem_cons_of_mem _ hv)
    cases hkey : variableKey? name with
    | none =>
      simp only [setAll_variables_of_none hkey]
      exact hrest
    | some key =>
      simp only [setAll_variables_of_some hkey]
      obtain ⟨g', k', hne, hsets⟩ :=
        exists_sets_of_scalarKey (h (name, value) List.mem_cons_self key hkey) value
      rcases hrest with ⟨hscalar, v, hv⟩ | hkept
      · exact .inl ⟨hscalar, v, fun root => hv _⟩
      · by_cases hsame : g = g' ∧ k = k'
        · obtain ⟨rfl, rfl⟩ := hsame
          exact .inl ⟨hne, _, fun root => (hkept _).trans (hsets root).self⟩
        · refine .inr fun root => (hkept _).trans ((hsets root).other g k ?_)
          exact Decidable.not_and_iff_not_or_not.mp hsame

theorem TableSections.setAll_variables {bindings : List (String × String)}
    (henvironment : ScalarEnvironment bindings) (h : root.TableSections) :
    (root.setAll (variableEntries bindings)).TableSections := by
  induction bindings generalizing root with
  | nil => exact h
  | cons e bindings ih =>
    obtain ⟨name, value⟩ := e
    have hrest : ScalarEnvironment bindings := fun v hv =>
      henvironment v (List.mem_cons_of_mem _ hv)
    cases hkey : variableKey? name with
    | none =>
      rw [setAll_variables_of_none hkey]
      exact ih hrest h
    | some key =>
      obtain ⟨g, k, -, hsets⟩ := exists_sets_of_scalarKey
        (henvironment (name, value) List.mem_cons_self key hkey) value
      rw [setAll_variables_of_some hkey]
      exact ih hrest ((hsets root).isTable h)

section Captured

variable {bindings : List (String × String)} {s : Settings}

theorem lookup_outputFields {value? : Option String} (h : (k, value?) ∈ s.outputTexts) :
    s.outputFields.lookup k = value?.map .text := by
  obtain ⟨base, entries, target, fileName?, tokenModule?⟩ := s
  rcases List.mem_pair.mp h with h | h <;> cases h <;>
    cases fileName? <;> cases tokenModule? <;> rfl

/-- A text that may be left out is read again, whether it was written, set by the environment, or
stood for no value in the layers below. -/
theorem readOr_optional (henvironment : ScalarEnvironment bindings) {key : String}
    {value? : Option String} (hfield : (k, value?) ∈ s.outputTexts)
    (hread : ∀ v, (root.setAll (variableEntries bindings)).valueAt? "output" k = some v →
      v.asText? key = .ok value?) :
    readOr none asText? (key, ((root.setAll (entriesOfData origin s.writtenLayer)).setAll
      (variableEntries bindings)).valueAt? "output" k) = .ok value? := by
  rcases valueAt?_setAll_variables henvironment "output" k with ⟨-, v, hv⟩ | hkept
  · rw [hv]
    exact hread v (hv root)
  · rw [hkept, (valueAt?_setAll_writtenLayer root origin s k).2, lookup_outputFields hfield]
    cases value? with
    | some value => rfl
    | none =>
      rw [hkept] at hread
      cases hv : root.valueAt? "output" k with
      | none => rfl
      | some v => exact hread v hv

/-- Settings that were loaded are carried again once they are written over the layers that they
come from, but for the target that the environment may set. -/
theorem exists_carries_writtenLayer (henvironment : ScalarEnvironment bindings)
    {loaded : Settings} {target? : Option Target} (origin : String)
    (h : Settings.ofLayers (root.setAll (variableEntries bindings)) = .ok loaded)
    (hs : s = { loaded with target := target?.getD loaded.target }) :
    ∃ t, target?.getD t = s.target ∧ ((root.setAll (entriesOfData origin s.writtenLayer)).setAll
      (variableEntries bindings)).Carries { s with target := t } := by
  have hread {v : Item} := read_valueAt?_of_ofLayers (v := v) h
  have htable := (tableSections_setAll_writtenLayer root origin s).setAll_variables henvironment
  have hwritten := valueAt?_setAll_writtenLayer root origin s
  have hbase : readOr ({} : Settings).base asText ("grammar.base_name",
      ((root.setAll (entriesOfData origin s.writtenLayer)).setAll
        (variableEntries bindings)).valueAt? "grammar" "base_name") = .ok s.base := by
    rcases valueAt?_setAll_variables henvironment "grammar" "base_name" with ⟨-, v, hv⟩ | hkept
    · rw [hv, hs]
      exact hread.1 (hv root)
    · rw [hkept, (hwritten _).1]
      rfl
  have hentries : readOr ({} : Settings).entries asTexts ("grammar.variants",
      ((root.setAll (entriesOfData origin s.writtenLayer)).setAll
        (variableEntries bindings)).valueAt? "grammar" "variants") = .ok s.entries := by
    rcases valueAt?_setAll_variables henvironment "grammar" "variants" with ⟨hne, -⟩ | hkept
    · exact absurd hne (by decide)
    · have htexts : (s.entries.map Data.Value.text).mapM Data.Value.asText? = some s.entries :=
        Settings.mapM_map_of_some (f := Data.Value.asText?) (g := .text) (fun _ => rfl) s.entries
      rw [hkept, (hwritten _).1]
      exact textsFrom_listOfData _ _ htexts 0
  have htarget : ∃ t, target?.getD t = s.target ∧
      readOr ({} : Settings).target (fun _ => asTarget) ("output.target",
        ((root.setAll (entriesOfData origin s.writtenLayer)).setAll
          (variableEntries bindings)).valueAt? "output" "target") = .ok t := by
    rcases valueAt?_setAll_variables henvironment "output" "target" with ⟨-, v, hv⟩ | hkept
    · refine ⟨loaded.target, by rw [hs], ?_⟩
      rw [hv]
      exact hread.2.1 (hv root)
    · refine ⟨s.target, by rw [hs]; cases target? <;> rfl, ?_⟩
      rw [hkept, (hwritten _).2]
      exact asTarget_name s.target
  obtain ⟨t, ht, htarget⟩ := htarget
  refine ⟨t, ht, htable, hbase, hentries, htarget, ?_, ?_⟩
  · refine readOr_optional henvironment List.mem_cons_self fun v hv => ?_
    rw [hs]
    exact hread.2.2.1 hv
  · refine readOr_optional henvironment (List.mem_cons_of_mem _ List.mem_cons_self) fun v hv => ?_
    rw [hs]
    exact hread.2.2.2 hv

end Captured

end Item

end NodeDecl
