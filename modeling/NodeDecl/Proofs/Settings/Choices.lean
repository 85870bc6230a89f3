import NodeDecl.Proofs.Settings.Sections

/-! # Choices

A source chooses some of the settings. What results from several sources is, setting by setting,
the last choice, or the default if there is none. The merged sections carry these settings: to set
a key of a section is to add one choice.
-/

namespace NodeDecl

/-- One setting, as a source chooses it. -/
inductive Choice where
  | base (name : String)
  | entries (texts : List String)
  | target (t : Target)
  | fileName (name : String)
  | tokenModule (name : String)
deriving DecidableEq

namespace Choice

def base? : Choice → Option String
  | base name => some name
  | _ => none

def entries? : Choice → Option (List String)
  | entries texts => some texts
  | _ => none

def target? : Choice → Option Target
  | target t => some t
  | _ => none

def fileName? : Choice → Option String
  | fileName name => some name
  | _ => none

def tokenModule? : Choice → Option String
  | tokenModule name => some name
  | _ => none

/-- The last choice of one of the settings. -/
def last? {α : Type} (pick : Choice → Option α) (choices : List Choice) : Option α :=
  (choices.filterMap pick).getLast?

end Choice

/-- The settings that are chosen, one by one the last choice or the default. -/
def Settings.ofChoices (choices : List Choice) : Settings where
  base := (Choice.last? Choice.base? choices).getD "Expression"
  entries := (Choice.last? Choice.entries? choices).getD standardEntries
  target := (Choice.last? Choice.target? choices).getD .zig
  fileName? := Choice.last? Choice.fileName? choices
  tokenModule? := Choice.last? Choice.tokenModule? choices

namespace Choice

/-- What stands under a key of a section reads as the choice. -/
def ReadFrom (g k : String) (v : Item) : Choice → Prop
  | base name => g = "grammar" ∧ k = "base_name" ∧ v.asText "grammar.base_name" = .ok name
  | entries texts => g = "grammar" ∧ k = "variants" ∧ v.asTexts "grammar.variants" = .ok texts
  | target t => g = "output" ∧ k = "target" ∧ v.asTarget = .ok t
  | fileName name =>
    g = "output" ∧ k = "file_name" ∧ v.asText? "output.file_name" = .ok (some name)
  | tokenModule name =>
    g = "output" ∧ k = "token_module" ∧ v.asText? "output.token_module" = .ok (some name)

theorem last?_concat {α : Type} (pick : Choice → Option α) (choices : List Choice) (c : Choice) :
    last? pick (choices ++ [c]) = (pick c).or (last? pick choices) := by
  rw [last?, List.filterMap_append, List.getLast?_append]
  cases h : pick c <;> simp [h, last?]

end Choice

/-- The settings with one of them chosen anew. -/
def Settings.choose (s : Settings) : Choice → Settings
  | .base name => { s with base := name }
  | .entries texts => { s with entries := texts }
  | .target t => { s with target := t }
  | .fileName name => { s with fileName? := some name }
  | .tokenModule name => { s with tokenModule? := some name }

theorem Settings.ofChoices_concat (choices : List Choice) (c : Choice) :
    ofChoices (choices ++ [c]) = (ofChoices choices).choose c := by
  simp only [ofChoices, Choice.last?_concat]
  cases c <;> rfl

/-- The known keys of a section. -/
def knownKeys (g : String) : List String :=
  if g = "grammar" then ["base_name", "variants"]
  else if g = "output" then ["target", "file_name", "token_module"]
  else []

namespace Item

variable {root root' v : Item} {g k : String} {choices : List Choice} {c : Choice}

/-- Sections in which the known keys stand for the same carry the same settings. -/
theorem Carries.congr {s : Settings} (h : root.Carries s)
    (htable : root'.TableSections)
    (hkeys : ∀ g, ∀ k ∈ knownKeys g, root'.valueAt? g k = root.valueAt? g k) :
    root'.Carries s := by
  obtain ⟨-, hbase, hentries, htarget, hfile, htoken⟩ := h
  rw [← hkeys _ _ (by decide)] at hbase hentries htarget hfile htoken
  exact ⟨htable, hbase, hentries, htarget, hfile, htoken⟩

/-- The value is set under a key of a section, and what stands under the other keys is kept. -/
structure Sets (g k : String) (v root root' : Item) : Prop where
  isTable : root.TableSections → root'.TableSections
  self : root'.valueAt? g k = some v
  other : ∀ g' k', g' ≠ g ∨ k' ≠ k → root'.valueAt? g' k' = root.valueAt? g' k'

theorem sets_of_get? {sub : Item} (hsub : ∀ k, sub.get? k = root.valueAt? g k)
    (hself : root'.get? g = some (sub.put k v))
    (hother : ∀ g', g' ≠ g → root'.get? g' = root.get? g') : Sets g k v root root' := by
  refine ⟨fun h g' hg w hw => ?_, ?_, fun g' k' hne => ?_⟩
  · by_cases he : g' = g
    · subst he
      rw [hself] at hw
      cases hw
      exact isTable_put
    · exact h g' hg w (hother g' he ▸ hw)
  · rw [valueAt?, hself]
    exact get?_put_self
  · by_cases he : g' = g
    · subst he
      rw [valueAt?, hself, ← hsub]
      exact get?_put_of_ne (hne.resolve_left (fun h => h rfl))
    · rw [valueAt?, hother g' he, valueAt?]

theorem sets_setPath (h : ¬v.IsTable) : Sets g k v root (root.setPath ⟨g, [.key k]⟩ v) := by
  rw [setPath_key h]
  exact sets_of_get? (fun k => get?_getD_absent) get?_put_self fun g' => get?_put_of_ne

theorem sets_put_merge {sub : Item} (h : ¬v.IsTable) :
    Sets g k v (root.put g sub) (root.put g (merge k sub v)) := by
  rw [merge_of_not_isTable h]
  refine sets_of_get? (fun k => valueAt?_put_self.symm) get?_put_self fun g' he => ?_
  rw [get?_put_of_ne he, get?_put_of_ne he]

section Reading

variable {α : Type} {d x : α} {read : String → Item → Except SettingsFault α} {key g' k' : String}

theorem Sets.readOr_self (hset : Sets g k v root root') (h : read key v = .ok x) :
    readOr d read (key, root'.valueAt? g k) = .ok x := by
  rw [hset.self]
  exact h

theorem Sets.readOr_other (hset : Sets g k v root root') (hne : g' ≠ g ∨ k' ≠ k)
    (h : readOr d read (key, root.valueAt? g' k') = .ok x) :
    readOr d read (key, root'.valueAt? g' k') = .ok x := by
  rw [hset.other g' k' hne]
  exact h

end Reading

/-- The sections carry one more choice once its value is set. -/
theorem Carries.concat (h : root.Carries (.ofChoices choices)) (hset : Sets g k v root root')
    (hread : c.ReadFrom g k v) : root'.Carries (.ofChoices (choices ++ [c])) := by
  obtain ⟨htable, hbase, hentries, htarget, hfile, htoken⟩ := h
  rw [Settings.ofChoices_concat]
  have htable' := hset.isTable htable
  cases c with
  | base name =>
    obtain ⟨rfl, rfl, hread⟩ := hread
    exact ⟨htable', hset.readOr_self hread, hset.readOr_other (by decide) hentries,
      hset.readOr_other (by decide) htarget, hset.readOr_other (by decide) hfile,
      hset.readOr_other (by decide) htoken⟩
  | entries texts =>
    obtain ⟨rfl, rfl, hread⟩ := hread
    exact ⟨htable', hset.readOr_other (by decide) hbase, hset.readOr_self hread,
      hset.readOr_other (by decide) htarget, hset.readOr_other (by decide) hfile,
      hset.readOr_other (by decide) htoken⟩
  | target t =>
    obtain ⟨rfl, rfl, hread⟩ := hread
    exact ⟨htable', hset.readOr_other (by decide) hbase, hset.readOr_other (by decide) hentries,
      hset.readOr_self hread, hset.readOr_other (by decide) hfile,
      hset.readOr_other (by decide) htoken⟩
  | fileName name =>
    obtain ⟨rfl, rfl, hread⟩ := hread
    exact ⟨htable', hset.readOr_other (by decide) hbase, hset.readOr_other (by decide) hentries,
      hset.readOr_other (by decide) htarget, hset.readOr_self hread,
      hset.readOr_other (by decide) htoken⟩
  | tokenModule name =>
    obtain ⟨rfl, rfl, hread⟩ := hread
    exact ⟨htable', hset.readOr_other (by decide) hbase, hset.readOr_other (by decide) hentries,
      hset.readOr_other (by decide) htarget, hset.readOr_other (by decide) hfile,
      hset.readOr_self hread⟩

end Item

end NodeDecl
