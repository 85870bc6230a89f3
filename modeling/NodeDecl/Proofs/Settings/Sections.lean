import NodeDecl.Settings.KeyPath
import NodeDecl.Settings.Readout

/-! # Sections of the merged settings

The settings are read from what stands under the known keys of two sections. To set a key of a
section changes what stands under this key and nothing else, so the settings can be followed
through the merging key by key.
-/

namespace NodeDecl

namespace Item

variable {root v w : Item} {key k g : String}

theorem lookup_putEntry_self (entries : List (String × Item)) :
    (putEntry key v entries).lookup key = some v := by
  induction entries with
  | nil => simp [putEntry]
  | cons e entries ih =>
    obtain ⟨k, old⟩ := e
    rw [putEntry]
    split
    · next h => simp [h]
    · next h => rw [List.lookup_cons, beq_eq_false_iff_ne.mpr (Ne.symm h), ih]

theorem lookup_putEntry_of_ne (h : k ≠ key) (entries : List (String × Item)) :
    (putEntry key v entries).lookup k = entries.lookup k := by
  induction entries with
  | nil => rw [putEntry, List.lookup_cons, beq_eq_false_iff_ne.mpr h]
  | cons e entries ih =>
    obtain ⟨k', old⟩ := e
    rw [putEntry]
    split
    · next hk =>
      rw [List.lookup_cons, List.lookup_cons, beq_eq_false_iff_ne.mpr (hk ▸ h)]
    · rw [List.lookup_cons, List.lookup_cons, ih]

theorem get?_put_self : (root.put key v).get? key = some v := lookup_putEntry_self _

theorem get?_put_of_ne (h : k ≠ key) : (root.put key v).get? k = root.get? k :=
  lookup_putEntry_of_ne h _

/-- A value other than a table is merged by putting it in place. -/
def IsTable : Item → Prop
  | .table .. => True
  | _ => False

theorem isTable_put : (root.put key v).IsTable := trivial

theorem merge_of_not_isTable (h : ¬v.IsTable) : merge key root v = root.put key v := by
  cases v with
  | table => exact absurd trivial h
  | _ => rw [merge]; nofun

/-- Whatever is merged into a key of a table, only this key of the table changes. -/
theorem exists_merge_eq_put (key : String) (root v : Item) :
    ∃ w, merge key root v = root.put key w := by
  cases v with
  | table origin? entries => exact ⟨_, by rw [merge]⟩
  | _ => exact ⟨_, by rw [merge]; nofun⟩

theorem get?_merge_of_ne (h : k ≠ key) : (merge key root v).get? k = root.get? k := by
  obtain ⟨w, hw⟩ := exists_merge_eq_put key root v
  rw [hw, get?_put_of_ne h]

theorem isTable_merge : (merge key root v).IsTable := by
  obtain ⟨w, hw⟩ := exists_merge_eq_put key root v
  rw [hw]
  exact isTable_put

theorem isTable_mergeAll {entries : List (String × Item)} (h : root.IsTable) :
    (mergeAll root entries).IsTable := by
  induction entries generalizing root with
  | nil => exact h
  | cons e entries ih =>
    rw [mergeAll]
    exact ih isTable_merge

/-- What stands under a key of a section. -/
def valueAt? (root : Item) (g k : String) : Option Item := (root.get? g).bind (·.get? k)

theorem valueAt?_put_self : (root.put g v).valueAt? g k = v.get? k := by
  rw [valueAt?, get?_put_self, Option.bind_some]

theorem valueAt?_put_of_ne (h : g ≠ key) : (root.put key v).valueAt? g k = root.valueAt? g k := by
  rw [valueAt?, get?_put_of_ne h, valueAt?]

theorem get?_getD_absent : ((root.get? g).getD (.absent none)).get? k = root.valueAt? g k := by
  rw [valueAt?]
  cases root.get? g <;> rfl

theorem get?_getD_table : ((root.get? g).getD (.table none [])).get? k = root.valueAt? g k := by
  rw [valueAt?]
  cases root.get? g <;> rfl

/-- A path of two names sets one key of one section. -/
theorem setPath_key (h : ¬v.IsTable) : root.setPath ⟨g, [.key k]⟩ v =
    root.put g (((root.get? g).getD (.absent none)).put k v) := by
  rw [setPath, setAt, setAt, merge_of_not_isTable h]
  nofun

theorem setPath_table (origin? : Option String) (entries : List (String × Item)) :
    root.setPath ⟨g, []⟩ (.table origin? entries) =
      root.put g (mergeAll ((root.get? g).getD (.table none [])) entries) := by
  rw [setPath, setAt, merge]

theorem asTarget_name (t : Target) : asTarget (.text t.name) = .ok t := by
  cases t <;> rfl

/-- The sections are tables where they are present. -/
def TableSections (root : Item) : Prop :=
  ∀ g ∈ ["grammar", "output"], ∀ v, root.get? g = some v → v.IsTable

/-- The sections are tables, and what stands under their keys reads as the settings; a key under
which nothing stands has its default. -/
structure Carries (root : Item) (s : Settings) : Prop where
  isTable : root.TableSections
  base : readOr ({} : Settings).base asText
    ("grammar.base_name", root.valueAt? "grammar" "base_name") = .ok s.base
  entries : readOr ({} : Settings).entries asTexts
    ("grammar.variants", root.valueAt? "grammar" "variants") = .ok s.entries
  target : readOr ({} : Settings).target (fun _ => asTarget)
    ("output.target", root.valueAt? "output" "target") = .ok s.target
  fileName : readOr none asText?
    ("output.file_name", root.valueAt? "output" "file_name") = .ok s.fileName?
  tokenModule : readOr none asText?
    ("output.token_module", root.valueAt? "output" "token_module") = .ok s.tokenModule?

theorem readGrammar_eq_ok_iff {d s : Settings} {origin? : Option String}
    {entries : List (String × Item)} : Settings.readGrammar d (.table origin? entries) = .ok s ↔
      readOr d.base asText ("grammar.base_name", entries.lookup "base_name") = .ok s.base ∧
        readOr d.entries asTexts ("grammar.variants", entries.lookup "variants") = .ok s.entries ∧
          s = { d with base := s.base, entries := s.entries } := by
  have hread : Settings.readGrammar d (.table origin? entries) = (do
      let base ← readOr d.base asText ("grammar.base_name", entries.lookup "base_name")
      let texts ← readOr d.entries asTexts ("grammar.variants", entries.lookup "variants")
      return { d with base := base, entries := texts }) := rfl
  rw [hread]
  cases hbase : readOr d.base asText ("grammar.base_name", entries.lookup "base_name") with
  | error fault => exact ⟨nofun, nofun⟩
  | ok base =>
    cases htexts : readOr d.entries asTexts ("grammar.variants", entries.lookup "variants") with
    | error fault => exact ⟨nofun, nofun⟩
    | ok texts =>
      constructor
      · rintro ⟨⟩
        exact ⟨rfl, rfl, rfl⟩
      · rintro ⟨⟨⟩, ⟨⟩, hs⟩
        exact congrArg Except.ok hs.symm

theorem readOutput_eq_ok_iff {d s : Settings} {origin? : Option String}
    {entries : List (String × Item)} : Settings.readOutput d (.table origin? entries) = .ok s ↔
      readOr d.target (fun _ => asTarget) ("output.target", entries.lookup "target") =
          .ok s.target ∧
        readOr d.fileName? asText? ("output.file_name", entries.lookup "file_name") =
            .ok s.fileName? ∧
          readOr d.tokenModule? asText? ("output.token_module", entries.lookup "token_module") =
              .ok s.tokenModule? ∧
            s = { d with
              target := s.target, fileName? := s.fileName?, tokenModule? := s.tokenModule? } := by
  have hread : Settings.readOutput d (.table origin? entries) = (do
      let target ← readOr d.target (fun _ => asTarget) ("output.target", entries.lookup "target")
      let fileName? ← readOr d.fileName? asText? ("output.file_name", entries.lookup "file_name")
      let tokenModule? ← readOr d.tokenModule? asText?
        ("output.token_module", entries.lookup "token_module")
      return { d with target := target, fileName? := fileName?, tokenModule? := tokenModule? }) :=
    rfl
  rw [hread]
  cases readOr d.target (fun _ => asTarget) ("output.target", entries.lookup "target") with
  | error fault => exact ⟨nofun, nofun⟩
  | ok target =>
    cases readOr d.fileName? asText? ("output.file_name", entries.lookup "file_name") with
    | error fault => exact ⟨nofun, nofun⟩
    | ok fileName? =>
      cases readOr d.tokenModule? asText?
          ("output.token_module", entries.lookup "token_module") with
      | error fault => exact ⟨nofun, nofun⟩
      | ok tokenModule? =>
        constructor
        · rintro ⟨⟩
          exact ⟨rfl, rfl, rfl, rfl⟩
        · rintro ⟨⟨⟩, ⟨⟩, ⟨⟩, hs⟩
          exact congrArg Except.ok hs.symm

theorem IsTable.exists (h : v.IsTable) : ∃ origin? entries, v = .table origin? entries := by
  cases v with
  | table origin? entries => exact ⟨origin?, entries, rfl⟩
  | _ => cases h

/-- Reads a section if it is present. -/
def readSection (read : Settings → Item → Except SettingsFault Settings) (d : Settings) :
    Option Item → Except SettingsFault Settings
  | some v => read d v
  | none => .ok d

theorem ofLayers_eq_ok_iff {s : Settings} : Settings.ofLayers root = .ok s ↔
    ∃ m, readSection Settings.readGrammar {} (root.get? "grammar") = .ok m ∧
      readSection Settings.readOutput m (root.get? "output") = .ok s := by
  have hread : Settings.ofLayers root =
      (readSection Settings.readGrammar {} (root.get? "grammar")).bind fun m =>
        readSection Settings.readOutput m (root.get? "output") := by
    rw [Settings.ofLayers]
    cases root.get? "grammar" <;> cases root.get? "output" <;> rfl
  rw [hread]
  cases readSection Settings.readGrammar {} (root.get? "grammar") with
  | error fault => exact ⟨nofun, nofun⟩
  | ok m => exact ⟨fun h => ⟨m, rfl, h⟩, by rintro ⟨_, ⟨⟩, h⟩; exact h⟩

/-- Settings that the sections carry are the settings that are read from them. -/
theorem Carries.ofLayers_eq_ok {s : Settings} (h : root.Carries s) :
    Settings.ofLayers root = .ok s := by
  obtain ⟨htable, hbase, hentries, htarget, hfile, htoken⟩ := h
  rw [valueAt?] at hbase hentries htarget hfile htoken
  refine ofLayers_eq_ok_iff.mpr
    ⟨{ ({} : Settings) with base := s.base, entries := s.entries }, ?_, ?_⟩
  · cases hg : root.get? "grammar" with
    | none =>
      rw [hg] at hbase hentries
      rw [← Except.ok.inj hbase, ← Except.ok.inj hentries]
      rfl
    | some v =>
      obtain ⟨origin?, entries, rfl⟩ := (htable "grammar" (by decide) v hg).exists
      rw [hg] at hbase hentries
      exact readGrammar_eq_ok_iff.mpr ⟨hbase, hentries, rfl⟩
  · cases hg : root.get? "output" with
    | none =>
      rw [hg] at htarget hfile htoken
      have hs : { ({} : Settings) with base := s.base, entries := s.entries } = s := by
        obtain ⟨base, entries, target, fileName?, tokenModule?⟩ := s
        cases htarget
        cases hfile
        cases htoken
        rfl
      rw [hs]
      rfl
    | some v =>
      obtain ⟨origin?, entries, rfl⟩ := (htable "output" (by decide) v hg).exists
      rw [hg] at htarget hfile htoken
      exact readOutput_eq_ok_iff.mpr ⟨htarget, hfile, htoken, rfl⟩

theorem exists_of_bind_eq_ok {ε α β : Type} {x : Except ε α} {f : α → Except ε β} {b : β}
    (h : x >>= f = .ok b) : ∃ a, x = .ok a ∧ f a = .ok b := by
  cases x with
  | error e => cases h
  | ok a => exact ⟨a, rfl, h⟩

/-- Reading the output section keeps the grammar, in whatever form the section is. -/
theorem grammar_of_readOutput {d s : Settings} (h : Settings.readOutput d v = .ok s) :
    s.base = d.base ∧ s.entries = d.entries := by
  rw [Settings.readOutput] at h
  obtain ⟨values, -, h⟩ := exists_of_bind_eq_ok h
  split at h
  · obtain ⟨target, -, h⟩ := exists_of_bind_eq_ok h
    obtain ⟨fileName?, -, h⟩ := exists_of_bind_eq_ok h
    obtain ⟨tokenModule?, -, h⟩ := exists_of_bind_eq_ok h
    cases h
    exact ⟨rfl, rfl⟩
  · cases h
    exact ⟨rfl, rfl⟩

/-- What stands under a key of a section stands in a table. -/
theorem exists_table_of_valueAt? (h : root.valueAt? g k = some v) :
    ∃ origin? entries, root.get? g = some (.table origin? entries) ∧
      entries.lookup k = some v := by
  obtain ⟨w, hw, hv⟩ := Option.bind_eq_some_iff.mp h
  cases w with
  | table origin? entries => exact ⟨origin?, entries, hw, hv⟩
  | _ => cases hv

/-- What stands under the known keys reads as the settings that were read. -/
theorem read_valueAt?_of_ofLayers {s : Settings} (h : Settings.ofLayers root = .ok s) :
    (root.valueAt? "grammar" "base_name" = some v → v.asText "grammar.base_name" = .ok s.base) ∧
    (root.valueAt? "output" "target" = some v → v.asTarget = .ok s.target) ∧
    (root.valueAt? "output" "file_name" = some v →
      v.asText? "output.file_name" = .ok s.fileName?) ∧
    (root.valueAt? "output" "token_module" = some v →
      v.asText? "output.token_module" = .ok s.tokenModule?) := by
  obtain ⟨m, hgrammar, houtput⟩ := ofLayers_eq_ok_iff.mp h
  have hbase : s.base = m.base := by
    cases hg : root.get? "output" with
    | none =>
      rw [hg] at houtput
      cases houtput
      rfl
    | some w =>
      rw [hg] at houtput
      exact (grammar_of_readOutput houtput).1
  have hread (k : String) (hv : root.valueAt? "output" k = some v) :
      ∃ origin? entries, entries.lookup k = some v ∧
        Settings.readOutput m (.table origin? entries) = .ok s := by
    obtain ⟨origin?, entries, hg, hlookup⟩ := exists_table_of_valueAt? hv
    rw [hg] at houtput
    exact ⟨origin?, entries, hlookup, houtput⟩
  refine ⟨?_, ?_, ?_, ?_⟩ <;> intro hv
  · obtain ⟨origin?, entries, hg, hlookup⟩ := exists_table_of_valueAt? hv
    rw [hg] at hgrammar
    have hfield := (readGrammar_eq_ok_iff.mp hgrammar).1
    rw [hlookup] at hfield
    rw [hbase]
    exact hfield
  · obtain ⟨origin?, entries, hlookup, hok⟩ := hread "target" hv
    have hfield := (readOutput_eq_ok_iff.mp hok).1
    rw [hlookup] at hfield
    exact hfield
  · obtain ⟨origin?, entries, hlookup, hok⟩ := hread "file_name" hv
    have hfield := (readOutput_eq_ok_iff.mp hok).2.1
    rw [hlookup] at hfield
    exact hfield
  · obtain ⟨origin?, entries, hlookup, hok⟩ := hread "token_module" hv
    have hfield := (readOutput_eq_ok_iff.mp hok).2.2.1
    rw [hlookup] at hfield
    exact hfield

end Item

end NodeDecl
