import Mathlib.Data.List.Nodup
import NodeDecl.Proofs.Grammar.Names
import NodeDecl.Target.Basic

/-! # Escaped names

A reserved word is escaped in one of two ways: an underscore is put after it, or it is put between
marks that no name holds. What results is never a reserved word. Two names that are escaped alike
are equal, unless one is a word of the first kind and the other that word with its underscore.
-/

namespace NodeDecl.Target

/-- The reserved words that are escaped by an underscore after them. -/
def suffixedWords : Target → List String
  | zig => []
  | rust => rustPathKeywords

/-- The reserved words that are escaped by marks. -/
def markedWords : Target → List String
  | zig => zigKeywords
  | rust => rustKeywords

/-- The reserved words of the language. -/
def keywords (t : Target) : List String := t.suffixedWords ++ t.markedWords

/-- A name with the marks that make any word a name. -/
def mark (name : String) : Target → String
  | zig => "@\"" ++ name ++ "\""
  | rust => "r#" ++ name

variable {t : Target} {a b name : String}

theorem escape_eq (t : Target) (name : String) : t.escape name =
    if name ∈ t.suffixedWords then name ++ "_"
    else if name ∈ t.markedWords then t.mark name
    else name := by
  cases t with
  | zig => rw [suffixedWords, if_neg List.not_mem_nil]; rfl
  | rust => rfl

theorem isNameChar_of_mem_keywords (h : name ∈ t.keywords) :
    ∀ c ∈ name.toList, isNameChar c = true := by
  have hall : (t.keywords.all fun k => k.toList.all (isNameChar ·)) = true := by
    cases t <;> decide +kernel
  exact List.all_eq_true.mp (List.all_eq_true.mp hall name h)

theorem suffixed_not_mem_keywords (h : name ∈ t.suffixedWords) : name ++ "_" ∉ t.keywords := by
  have hall : ∀ k ∈ t.suffixedWords, k ++ "_" ∉ t.keywords := by
    cases t <;> decide +kernel
  exact hall name h

theorem exists_mem_mark (t : Target) (name : String) :
    ∃ c ∈ (t.mark name).toList, isNameChar c = false := by
  cases t with
  | zig => exact ⟨'@', by simp [mark], rfl⟩
  | rust => exact ⟨'#', by simp [mark], rfl⟩

theorem mark_ne (h : ∀ c ∈ b.toList, isNameChar c = true) : t.mark a ≠ b := by
  rintro rfl
  obtain ⟨c, hc, hmark⟩ := exists_mem_mark t a
  rw [h c hc] at hmark
  cases hmark

theorem eq_of_mark_eq (h : t.mark a = t.mark b) : a = b := by
  cases t with
  | zig => simpa [mark] using h
  | rust => simpa [mark] using h

theorem escape_of_not_mem (h : name ∉ t.keywords) : t.escape name = name := by
  rw [keywords, List.mem_append, not_or] at h
  rw [escape_eq, if_neg h.1, if_neg h.2]

theorem escape_not_mem_keywords (t : Target) (name : String) : t.escape name ∉ t.keywords := by
  rw [escape_eq]
  by_cases hsuffix : name ∈ t.suffixedWords
  · rw [if_pos hsuffix]
    exact suffixed_not_mem_keywords hsuffix
  · rw [if_neg hsuffix]
    by_cases hmark : name ∈ t.markedWords
    · rw [if_pos hmark]
      exact fun h => mark_ne (isNameChar_of_mem_keywords h) rfl
    · rw [if_neg hmark, keywords, List.mem_append]
      exact not_or.mpr ⟨hsuffix, hmark⟩

theorem escape_of_mem_suffixedWords (h : name ∈ t.suffixedWords) : t.escape name = name ++ "_" := by
  rw [escape_eq, if_pos h]

theorem escape_cases (t : Target) (name : String) : t.escape name = t.mark name ∨
    t.escape name = name ∨ name ∈ t.suffixedWords ∧ t.escape name = name ++ "_" := by
  rw [escape_eq]
  split
  · next h => exact .inr (.inr ⟨h, rfl⟩)
  · split
    · exact .inl rfl
    · exact .inr (.inl rfl)

/-- The second name is what the first one, a reserved word, is escaped to by an underscore. -/
def Suffixes (t : Target) (a b : String) : Prop := a ∈ t.suffixedWords ∧ b = a ++ "_"

theorem Suffixes.ne (h : t.Suffixes a b) : a ≠ b := by
  intro he
  have hlength := congrArg String.length (he.trans h.2)
  simp at hlength

theorem Suffixes.escape_eq_escape (h : t.Suffixes a b) : t.escape a = t.escape b := by
  obtain ⟨ha, rfl⟩ := h
  rw [escape_of_mem_suffixedWords ha, escape_of_not_mem (suffixed_not_mem_keywords ha)]

/-- Escaping takes two names together only where one is a word and the other its escaped form. -/
theorem escape_eq_escape_iff (ha : ∀ c ∈ a.toList, isNameChar c = true)
    (hb : ∀ c ∈ b.toList, isNameChar c = true) :
    t.escape a = t.escape b ↔ a = b ∨ t.Suffixes a b ∨ t.Suffixes b a := by
  have hsuffixed {k : String} (hk : k ∈ t.suffixedWords) :
      ∀ c ∈ (k ++ "_").toList, isNameChar c = true := by
    have hname := isNameChar_of_mem_keywords (List.mem_append_left t.markedWords hk)
    intro c hc
    rcases List.mem_append.mp (String.toList_append ▸ hc) with hc | hc
    · exact hname c hc
    · rw [List.mem_singleton.mp hc]
      rfl
  constructor
  · intro h
    rcases escape_cases t a with hma | hpa | ⟨hka, hsa⟩ <;>
      rcases escape_cases t b with hmb | hpb | ⟨hkb, hsb⟩
    · exact .inl (eq_of_mark_eq (hma.symm.trans (h.trans hmb)))
    · exact absurd (hma.symm.trans (h.trans hpb)) (mark_ne hb)
    · exact absurd (hma.symm.trans (h.trans hsb)) (mark_ne (hsuffixed hkb))
    · exact absurd (hmb.symm.trans (h.symm.trans hpa)) (mark_ne ha)
    · exact .inl (hpa.symm.trans (h.trans hpb))
    · exact .inr (.inr ⟨hkb, hpa.symm.trans (h.trans hsb)⟩)
    · exact absurd (hmb.symm.trans (h.symm.trans hsa)) (mark_ne (hsuffixed hka))
    · exact .inr (.inl ⟨hka, hpb.symm.trans (h.symm.trans hsa)⟩)
    · exact .inl ((String.append_left_inj "_").mp (hsa.symm.trans (h.trans hsb)))
  · rintro (rfl | hab | hba)
    · rfl
    · exact hab.escape_eq_escape
    · exact hba.escape_eq_escape.symm

/-- Two of the names are escaped alike: a word and its escaped form. -/
def Merges (t : Target) (names : List String) : Prop :=
  ∃ k ∈ t.suffixedWords, k ∈ names ∧ k ++ "_" ∈ names

instance (t : Target) (names : List String) : Decidable (t.Merges names) :=
  inferInstanceAs (Decidable (∃ k ∈ t.suffixedWords, _))

theorem not_merges_zig (names : List String) : ¬Target.zig.Merges names := by
  rintro ⟨k, hk, -⟩
  cases hk

/-- Different names stay different unless a word and its escaped form are among them. -/
theorem nodup_map_escape_iff {names : List String}
    (hnames : ∀ name ∈ names, ∀ c ∈ name.toList, isNameChar c = true) (hnodup : names.Nodup) :
    (names.map (t.escape ·)).Nodup ↔ ¬t.Merges names := by
  rw [List.nodup_map_iff_inj_on hnodup]
  constructor
  · rintro h ⟨k, hk, hmem, hmem'⟩
    have hs : t.Suffixes k (k ++ "_") := ⟨hk, rfl⟩
    exact hs.ne (h k hmem _ hmem' hs.escape_eq_escape)
  · intro h a ha b hb he
    rcases (escape_eq_escape_iff (hnames a ha) (hnames b hb)).mp he with he | hs | hs
    · exact he
    · exact absurd ⟨a, hs.1, ha, hs.2 ▸ hb⟩ h
    · exact absurd ⟨b, hs.1, hb, hs.2 ▸ ha⟩ h

end NodeDecl.Target
