import NodeDecl.Proofs.Settings.Capture
import NodeDecl.Proofs.Settings.Probing

/-! # Texts from a variable and from a file

The value of a variable is read as a truth value or as a number where it looks like one, and shown
as text again where a text is expected; a file keeps its texts as they are. So a variable and a file
that set the same text give the same settings exactly if the text is spelled as it is shown.
-/

namespace NodeDecl
open Files Text

theorem ofDigits_toDigits (n : Nat) : Binary64.ofDigits (Nat.toDigits 10 n) = n := by
  have h := Nat.ofDigitChars_toDigits (b := 10) (n := n) (by decide) (by decide)
  rwa [Nat.ofDigitChars_eq_foldl] at h

theorem isDigit_of_mem_toDigits {n : Nat} {c : Char} (h : c ∈ Nat.toDigits 10 n) :
    c.isDigit = true :=
  Nat.isDigit_of_mem_toDigits (by decide) (by decide) h

theorem toList_toString_int (i : Int) : (toString i).toList =
    if 0 ≤ i then Nat.toDigits 10 i.toNat else '-' :: Nat.toDigits 10 (-i).toNat := by
  rw [Int.toString_eq_repr, Int.repr_eq_if]
  split
  · exact Nat.toList_repr
  · rw [String.toList_append, Nat.toList_repr]
    rfl

theorem readSign_of_isDigit {cs : List Char} (h : ∀ c ∈ cs, c.isDigit = true) :
    readSign cs = (false, cs) := by
  unfold readSign
  split
  · exact absurd (h _ List.mem_cons_self) (by decide)
  · exact absurd (h _ List.mem_cons_self) (by decide)
  · rfl

/-- A whole number is read back from its digits. -/
theorem readInteger?_toString (i : Int) : readInteger? (toString i).toList = some i := by
  have hdigits (n : Nat) : Nat.toDigits 10 n ≠ [] ∧
      (Nat.toDigits 10 n).all Char.isDigit = true :=
    ⟨Nat.toDigits_ne_nil, List.all_eq_true.mpr fun c hc => isDigit_of_mem_toDigits hc⟩
  rw [toList_toString_int]
  by_cases hi : 0 ≤ i
  · rw [if_pos hi, readInteger?, readSign_of_isDigit fun c hc => isDigit_of_mem_toDigits hc]
    simp only [if_pos (hdigits _), ofDigits_toDigits, signed, Bool.false_eq_true, if_false]
    rw [Int.toNat_of_nonneg hi]
  · rw [if_neg hi, readInteger?]
    simp only [readSign, if_pos (hdigits _), ofDigits_toDigits, signed, if_true]
    rw [Int.toNat_of_nonneg (by omega), Int.neg_neg]

theorem toLower_of_isDigit {c : Char} (h : c.isDigit = true) : c.toLower = c := by
  unfold Char.toLower
  split
  · next hc =>
    simp only [Char.isDigit, Bool.and_eq_true, decide_eq_true_eq, ge_iff_le,
      UInt32.le_iff_toNat_le] at h hc
    simp at h hc
    omega
  · rfl

theorem lowerCase_toString_int (i : Int) : lowerCase (toString i) = toString i := by
  have hbare : ∀ c ∈ (toString i).toList, Toml.isBareChar c = true ∧ c.toLower = c := by
    have hdigit {n : Nat} : ∀ c ∈ Nat.toDigits 10 n, Toml.isBareChar c = true ∧ c.toLower = c := by
      intro c hc
      have hc := isDigit_of_mem_toDigits hc
      refine ⟨?_, toLower_of_isDigit hc⟩
      simp [Toml.isBareChar, Char.isAlphanum, hc]
    rw [toList_toString_int]
    split
    · exact hdigit
    · exact List.forall_mem_cons.mpr ⟨by decide, hdigit⟩
  rw [lowerCase, lowerCaseFrom_of_isBareChar (fun c hc => (hbare c hc).1)]
  rw [List.map_congr_left fun c hc => (hbare c hc).2, List.map_id', String.ofList_toList]

/-- The text that the value of a variable is where a text is expected. -/
def shownValue (value : String) : String :=
  match Item.ofVariable value with
  | .flag b => toString b
  | .integer i => toString i
  | .decimal x => x.text
  | _ => value

/-- A word, a truth value in lower case, a whole number in its own digits, or a decimal in the
digits that it is shown with. -/
def SpelledAsShown (value : String) : Prop :=
  IsWord value ∨ value ∈ ["true", "false"] ∨ (∃ i, fitsInt64 i = true ∧ value = toString i) ∨
    ∃ x, Item.ofVariable value = .decimal x ∧ value = x.text

theorem Item.ofVariable_cases (value : String) :
    (∃ b, ofVariable value = .flag b) ∨
      (∃ i, fitsInt64 i = true ∧ ofVariable value = .integer i) ∨
      (∃ x, ofVariable value = .decimal x) ∨ (ofVariable value = .text value ∧ IsWord value) := by
  by_cases htrue : lowerCase value = "true"
  · exact .inl ⟨true, by rw [ofVariable]; simp only [htrue, if_true]⟩
  by_cases hfalse : lowerCase value = "false"
  · exact .inl ⟨false, by rw [ofVariable]; simp [hfalse]⟩
  cases hinteger : (readInteger? value.toList).filter fitsInt64 with
  | some i =>
    refine .inr (.inl ⟨i, (Option.filter_eq_some_iff.mp hinteger).2, ?_⟩)
    rw [ofVariable]
    simp only [if_neg htrue, if_neg hfalse, hinteger]
  | none =>
    cases hdecimal : Binary64.read? value.toList with
    | some x =>
      refine .inr (.inr (.inl ⟨x, ?_⟩))
      rw [ofVariable]
      simp only [if_neg htrue, if_neg hfalse, hinteger, hdecimal]
    | none =>
      have hword : IsWord value := ⟨htrue, hfalse, hinteger, hdecimal⟩
      exact .inr (.inr (.inr ⟨hword.ofVariable, hword⟩))

/-- The value is shown alike where a text is expected and where one may be left out. -/
theorem Item.asText_ofVariable (key value : String) :
    (ofVariable value).asText key = .ok (shownValue value) ∧
      (ofVariable value).asText? key = .ok (some (shownValue value)) := by
  rw [shownValue]
  rcases ofVariable_cases value with ⟨b, h⟩ | ⟨i, -, h⟩ | ⟨x, h⟩ | ⟨h, -⟩ <;>
    rw [h] <;> exact ⟨rfl, rfl⟩

theorem Item.ofVariable_toString_int {i : Int} (h : fitsInt64 i = true) :
    ofVariable (toString i) = .integer i := by
  have hread := readInteger?_toString i
  have hne (word : String) (hword : readInteger? word.toList = none) : toString i ≠ word := by
    intro he
    rw [he, hword] at hread
    cases hread
  rw [ofVariable]
  simp only [lowerCase_toString_int, if_neg (hne "true" (by decide)),
    if_neg (hne "false" (by decide)), hread, Option.filter_some, h, if_true]

theorem shownValue_eq_self_iff {value : String} :
    shownValue value = value ↔ SpelledAsShown value := by
  constructor
  · intro h
    rcases Item.ofVariable_cases value with ⟨b, hb⟩ | ⟨i, hfits, hi⟩ | ⟨x, hx⟩ | ⟨-, hword⟩
    · rw [shownValue, hb] at h
      have hshown : toString b = value := h
      rw [← hshown]
      exact .inr (.inl (by cases b <;> decide))
    · rw [shownValue, hi] at h
      exact .inr (.inr (.inl ⟨i, hfits, h.symm⟩))
    · have hshown := h
      rw [shownValue, hx] at hshown
      exact .inr (.inr (.inr ⟨x, hx, hshown.symm⟩))
    · exact .inl hword
  · rintro (hword | hflag | ⟨i, hfits, rfl⟩ | ⟨x, hx, hvalue⟩)
    · rw [shownValue, hword.ofVariable]
    · have hall : ∀ word ∈ ["true", "false"], shownValue word = word := by decide +kernel
      exact hall value hflag
    · rw [shownValue, Item.ofVariable_toString_int hfits]
    · rw [shownValue, hx]
      exact hvalue.symm

/-- The keys of texts that may be any text. -/
inductive TextKey where
  | base
  | fileName
  | tokenModule
deriving DecidableEq

namespace TextKey

/-- The section of a key. -/
def group : TextKey → String
  | base => "grammar"
  | fileName | tokenModule => "output"

def name : TextKey → String
  | base => "base_name"
  | fileName => "file_name"
  | tokenModule => "token_module"

/-- The variable that sets the key. -/
def variableName : TextKey → String
  | base => "ASTGEN_GRAMMAR__BASE_NAME"
  | fileName => "ASTGEN_OUTPUT__FILE_NAME"
  | tokenModule => "ASTGEN_OUTPUT__TOKEN_MODULE"

/-- The choice of a text for the key. -/
def choice (s : String) : TextKey → Choice
  | base => .base s
  | fileName => .fileName s
  | tokenModule => .tokenModule s

/-- A file that sets the key to a text and sets nothing else. -/
def layer (s : String) (k : TextKey) : Layer := [(k.group, .record [(k.name, .text s)])]

variable (k : TextKey) (value : String)

theorem choices_layer : (k.layer value).choices = [k.choice value] := by
  cases k <;> rfl

theorem documented_layer : (k.layer value).Documented := by
  have hvalue : (Choice.ofValue? k.group k.name (.text value)).isSome := by
    cases k <;> rfl
  have hgroup : k.group ∈ ["grammar", "output"] := by
    cases k <;> decide
  have hentries : Layer.DocumentedSection k.group [(k.name, .text value)] :=
    List.forall_mem_singleton.mpr (.inl hvalue)
  exact List.forall_mem_singleton.mpr (.inl ⟨hgroup, hentries⟩)

/-- What the value of the variable is shown as is read from it under the key. -/
theorem readFrom_ofVariable : (k.choice (shownValue value)).ReadFrom k.group k.name
    (.ofVariable value) := by
  cases k with
  | base => exact ⟨rfl, rfl, (Item.asText_ofVariable _ value).1⟩
  | fileName | tokenModule => exact ⟨rfl, rfl, (Item.asText_ofVariable _ value).2⟩

theorem exists_variableKey? : ∃ key, variableKey? k.variableName = some key ∧
    KeyPath.ofKey key = ⟨k.group, [.key k.name]⟩ := by
  refine ⟨k.group ++ "." ++ k.name, ?_⟩
  cases k <;> decide +kernel

variable {k value} in
theorem ofChoices_inj {other : String} :
    Settings.ofChoices [k.choice value] = .ofChoices [k.choice other] ↔ value = other := by
  refine ⟨fun h => ?_, fun h => h ▸ rfl⟩
  cases k with
  | base => exact congrArg Settings.base h
  | fileName => exact Option.some.inj (congrArg Settings.fileName? h)
  | tokenModule => exact Option.some.inj (congrArg Settings.tokenModule? h)

end TextKey

/-- The file of settings in the working directory. -/
def mainSource : Source := ⟨"astgen.toml", [.toml], false⟩

/-- The other files of settings that are looked for where none is asked for. -/
def otherSources (t : Tree) (environment : Environment) : List Source :=
  [⟨".astgen.toml", [.toml], false⟩, ⟨"config/astgen.toml", [.toml], false⟩] ++
    userSource (environment.userPlace?.filter fun place => t.contains place)

theorem sources_eq_cons (t : Tree) (environment : Environment) :
    sources t environment none = mainSource :: otherSources t environment :=
  List.append_nil _

theorem required_of_mem_sources {t : Tree} {environment : Environment} {s : Source}
    (h : s ∈ sources t environment none) : s.required = false := by
  have hoptional : ∀ s ∈ standardSources, s.required = false := by decide
  rcases mem_sources h with h | ⟨place, -, -, rfl⟩ | h
  · exact hoptional s h
  · rfl
  · cases h

/-- Files that are not there are passed over. -/
theorem mergeSources_of_absent {t : Tree} {files : List Source}
    (h : ∀ s ∈ files, s.locate? t = none ∧ s.required = false) (root : Item) :
    mergeSources t root files = .ok root := by
  induction files with
  | nil => rfl
  | cons s files ih =>
    obtain ⟨hnone, hrequired⟩ := h s List.mem_cons_self
    have hentries : s.entries? t = .ok none := by
      rw [Source.entries?, hnone]
      simp only [hrequired, Bool.false_eq_true, if_false]
    rw [mergeSources, hentries]
    exact ih fun s hs => h s (List.mem_cons_of_mem _ hs)

theorem variableEntries_filter (bindings : List (String × String)) :
    variableEntries (bindings.filter fun v => (variableKey? v.1).isSome) =
      variableEntries bindings := by
  rw [variableEntries, List.filterMap_filter, variableEntries]
  refine List.filterMap_congr fun v _ => ?_
  cases variableKey? v.1 <;> rfl

section

variable {k : TextKey} {value : String} {t : Tree} {environment : Environment}

theorem Settings.load_variable (ht : ∀ s ∈ sources t environment none, s.locate? t = none)
    (henvironment : environment.bindings.filter (fun v => (variableKey? v.1).isSome) =
      [(k.variableName, value)]) :
    load t none environment = .ok (.ofChoices [k.choice (shownValue value)]) := by
  obtain ⟨key, hkey, hpath⟩ := k.exists_variableKey?
  have hmerge : mergeSources t (.table none []) (sources t environment none) =
      .ok (.table none []) :=
    mergeSources_of_absent (fun s hs => ⟨ht s hs, required_of_mem_sources hs⟩) _
  have hentries : variableEntries environment.bindings = [(key, .ofVariable value)] := by
    rw [← variableEntries_filter, henvironment, variableEntries, List.filterMap_cons, hkey]
    rfl
  have hset : Item.Sets k.group k.name (.ofVariable value) (.table none [])
      ((Item.table none []).setPath (.ofKey key) (.ofVariable value)) := by
    rw [hpath]
    exact Item.sets_setPath (Item.not_isTable_ofVariable value)
  have hload := (Item.carries_empty.concat hset (k.readFrom_ofVariable value)).ofLayers_eq_ok
  rw [load, hmerge, hentries]
  simp only [Item.setAll, List.foldl_cons, List.foldl_nil]
  exact hload

theorem Settings.load_layer (hfile : mainSource.Holds t (k.layer value))
    (hothers : ∀ s ∈ otherSources t environment, s.locate? t = none)
    (henvironment : ∀ v ∈ environment.bindings, variableKey? v.1 = none) :
    load t none environment = .ok (.ofChoices [k.choice value]) := by
  have hrest : ∀ s ∈ otherSources t environment, s.locate? t = none ∧ s.required = false :=
    fun s hs => ⟨hothers s hs,
      required_of_mem_sources (sources_eq_cons t environment ▸ List.mem_cons_of_mem _ hs)⟩
  have hvariables : variableEntries environment.bindings = [] := by
    refine List.filterMap_eq_nil_iff.mpr fun v hv => ?_
    rw [henvironment v hv, Option.map_none]
  rcases hfile.entries? with ⟨-, hempty⟩ | ⟨origin, hentries⟩
  · cases hempty
  · have hcarries : Item.Carries
        ((Item.table none []).setAll (Item.entriesOfData origin (k.layer value)))
        (.ofChoices [k.choice value]) := by
      rw [← k.choices_layer]
      exact Item.carries_empty.setAll_layer (k.documented_layer value)
    have hload := hcarries.ofLayers_eq_ok
    rw [load, sources_eq_cons, mergeSources, hentries]
    simp only [mergeSources_of_absent hrest, hvariables, Item.setAll, List.foldl_nil] at hload ⊢
    exact hload

end

namespace TextKey

/-- A document that sets the key to a text. -/
def document (s : String) (k : TextKey) : String :=
  .ofList ('[' :: (k.group.toList ++ ']' :: '\n' ::
    Toml.writeAssignment k.name (Toml.writeText s)))

/-- A tree with one file of settings, which sets the key to a text. -/
def tree (s : String) (k : TextKey) : Tree := ⟨[], [(["astgen.toml"], .file (k.document s).toUTF8)]⟩

variable (k : TextKey) (value : String)

theorem read?_document : Format.toml.read? (k.document value).toList =
    some (.record (k.layer value)) := by
  have hgroup : Toml.IsBareKey k.group := by
    cases k <;> decide
  have hname : Toml.IsBareKey k.name := by
    cases k <;> decide
  have hnil : Toml.readStatements [] = some [] := by
    rw [Toml.readStatements]
    rfl
  have hassignment : Toml.readStatements (Toml.writeAssignment k.name (Toml.writeText value)) =
      some [.assignment ⟨[], k.name⟩ (.text value)] := by
    have h := Toml.readStatements_writeText hname value []
    rwa [List.append_nil, hnil] at h
  have hstatements : Toml.readStatements (k.document value).toList =
      some [.header ⟨[], k.group⟩, .assignment ⟨[], k.name⟩ (.text value)] := by
    rw [document, String.toList_ofList, Toml.readStatements_header hgroup, hassignment]
    rfl
  have hmark : Toml.dropByteOrderMark (k.document value).toList = (k.document value).toList := by
    rw [document, String.toList_ofList]
    rfl
  rw [Format.read?, Toml.readDocument, hmark, hstatements]
  cases k <;> rfl

theorem holds_tree : mainSource.Holds (k.tree value) (k.layer value) := by
  have hlocate : mainSource.locate? (k.tree value) = some ("astgen.toml", .toml) := rfl
  exact .inr ⟨"astgen.toml", k.document value, hlocate, Tree.readText_of_find rfl,
    k.read?_document value⟩

theorem locate?_tree {environment : Environment}
    (huser : ∀ place ∈ environment.userPlace?, (k.tree value).contains place = false) :
    ∀ s ∈ otherSources (k.tree value) environment, s.locate? (k.tree value) = none := by
  have hplace : environment.userPlace?.filter (fun place => (k.tree value).contains place) =
      none := Option.filter_eq_none_iff.mpr fun place hp => by rw [huser place hp]; nofun
  have hhidden : Source.locate? ⟨".astgen.toml", [.toml], false⟩ (k.tree value) = none := rfl
  have hnested : Source.locate? ⟨"config/astgen.toml", [.toml], false⟩ (k.tree value) = none := rfl
  rw [otherSources, hplace]
  exact List.forall_mem_cons.mpr ⟨hhidden, List.forall_mem_singleton.mpr hnested⟩

end TextKey

/-- Settings with one text, set by a variable or in a file: the file sets the text as it is, the
variable sets it as it is shown. So they are the same exactly if it is spelled so. -/
theorem Settings.load_variable_eq_load_layer_iff {k : TextKey} {value : String} {t u : Tree}
    {environment others : Environment}
    (ht : ∀ s ∈ sources t environment none, s.locate? t = none)
    (henvironment : environment.bindings.filter (fun v => (variableKey? v.1).isSome) =
      [(k.variableName, value)])
    (hfile : mainSource.Holds u (k.layer value))
    (hu : ∀ s ∈ otherSources u others, s.locate? u = none)
    (hothers : ∀ v ∈ others.bindings, variableKey? v.1 = none) :
    load t none environment = .ok (.ofChoices [k.choice (shownValue value)]) ∧
      load u none others = .ok (.ofChoices [k.choice value]) ∧
      (load t none environment = load u none others ↔ SpelledAsShown value) := by
  have hvariable := load_variable ht henvironment
  have hlayer := load_layer hfile hu hothers
  refine ⟨hvariable, hlayer, ?_⟩
  rw [hvariable, hlayer, ← shownValue_eq_self_iff]
  exact ⟨fun h => TextKey.ofChoices_inj.mp (Except.ok.inj h), fun h => by rw [h]⟩

theorem Settings.load_variable_exponent :
    load ⟨[], []⟩ none ⟨[("HOME", "/"), ("ASTGEN_OUTPUT__TOKEN_MODULE", "1e3")], none⟩ =
        .ok { tokenModule? := some "1000" } ∧
      load (TextKey.tokenModule.tree "1e3") none ⟨[("HOME", "/")], none⟩ =
        .ok { tokenModule? := some "1e3" } := by
  have hnone : ∀ s ∈ sources ⟨[], []⟩
      ⟨[("HOME", "/"), ("ASTGEN_OUTPUT__TOKEN_MODULE", "1e3")], none⟩ none,
        s.locate? ⟨[], []⟩ = none := by decide +kernel
  have hshown : shownValue "1e3" = "1000" := by decide +kernel
  have henvironment : [("HOME", "/"), ("ASTGEN_OUTPUT__TOKEN_MODULE", "1e3")].filter
      (fun v => (variableKey? v.1).isSome) = [(TextKey.tokenModule.variableName, "1e3")] := by
    decide +kernel
  have hothers : ∀ v ∈ [("HOME", "/")], variableKey? v.1 = none := by decide +kernel
  have huser : ∀ place ∈ (⟨[("HOME", "/")], none⟩ : Environment).userPlace?,
      (TextKey.tokenModule.tree "1e3").contains place = false := by
    rintro place ⟨⟩
    rfl
  have h := load_variable_eq_load_layer_iff hnone henvironment (TextKey.holds_tree _ _)
    (TextKey.locate?_tree _ _ huser) hothers
  rw [hshown] at h
  exact ⟨h.1, h.2.1⟩

/-- A base name that a variable and a file set alike, but that is read as a truth value from the
variable: the two give different settings and different grammars. -/
theorem Settings.load_variable_true :
    load ⟨[], []⟩ none ⟨[("ASTGEN_GRAMMAR__BASE_NAME", "True")], none⟩ =
        .ok { base := "true" } ∧
      TextKey.base.document "True" = "[grammar]\nbase_name = \"True\"\n" ∧
      load (TextKey.base.tree "True") none ⟨[], none⟩ = .ok { base := "True" } ∧
      ({ base := "true" } : Settings).grammar ≠ ({ base := "True" } : Settings).grammar := by
  have hnone : ∀ s ∈ sources ⟨[], []⟩ ⟨[("ASTGEN_GRAMMAR__BASE_NAME", "True")], none⟩ none,
      s.locate? ⟨[], []⟩ = none := by decide +kernel
  have hshown : shownValue "True" = "true" := by decide +kernel
  have henvironment : [("ASTGEN_GRAMMAR__BASE_NAME", "True")].filter
      (fun v => (variableKey? v.1).isSome) = [(TextKey.base.variableName, "True")] := by
    decide +kernel
  have hvariable := load_variable hnone henvironment
  rw [hshown] at hvariable
  have hlayer : load (TextKey.base.tree "True") none ⟨[], none⟩ = .ok { base := "True" } :=
    load_layer (TextKey.holds_tree .base "True") (TextKey.locate?_tree _ _ nofun) nofun
  exact ⟨hvariable, by decide +kernel, hlayer, by decide +kernel⟩

end NodeDecl
