import NodeDecl.Text.Blank

/-! # Trimming

A text is white space, its trimmed form, and white space again; the trimmed form neither begins
nor ends with white space, and it is the only part of the text with these properties.
-/

namespace NodeDecl.Text

/-- Only white space. -/
def AllBlank (s : List Char) : Prop := ∀ c ∈ s, isBlank c = true

instance (s : List Char) : Decidable (AllBlank s) := List.decidableBAll _ _

/-- No white space at either end. -/
def Trimmed (s : List Char) : Prop :=
  (∀ c ∈ s.head?, isBlank c = false) ∧ ∀ c ∈ s.getLast?, isBlank c = false

theorem AllBlank.nil : AllBlank [] := fun _ h => by cases h

theorem AllBlank.not_mem {s : List Char} (h : AllBlank s) {c : Char} (hc : isBlank c = false) :
    c ∉ s := fun hm => by
  rw [h c hm] at hc
  cases hc

theorem Trimmed.of_all {s : List Char} (h : ∀ c ∈ s, isBlank c = false) : Trimmed s :=
  ⟨fun c hc => h c (List.mem_of_mem_head? hc), fun c hc => h c (List.mem_of_getLast? hc)⟩

theorem dropWhile_isBlank_append {a s : List Char} (ha : AllBlank a)
    (hs : ∀ c ∈ s.head?, isBlank c = false) : (a ++ s).dropWhile isBlank = s := by
  rw [List.dropWhile_append_of_pos ha]
  cases s with
  | nil => rfl
  | cons c s => rw [List.dropWhile_cons_of_neg (by simp [hs c rfl])]

/-- White space around a trimmed text is what trimming takes off. -/
theorem trim_append {a s b : List Char} (ha : AllBlank a) (hs : Trimmed s) (hb : AllBlank b) :
    trim (a ++ s ++ b) = s := by
  by_cases hne : s = []
  · subst hne
    have hall : AllBlank (a ++ b) := fun c hc => (List.mem_append.mp hc).elim (ha c) (hb c)
    have h := dropWhile_isBlank_append (s := []) hall (by simp)
    rw [List.append_nil] at h
    simp [trim, trimStart, trimEnd, h]
  · have hstart : trimStart (a ++ s ++ b) = s ++ b := by
      rw [trimStart, List.append_assoc]
      apply dropWhile_isBlank_append ha
      cases s with
      | nil => exact absurd rfl hne
      | cons c s => exact hs.1
    have hback : AllBlank b.reverse := fun c hc => hb c (List.mem_reverse.mp hc)
    rw [trim, hstart, trimEnd, List.reverse_append, dropWhile_isBlank_append hback,
      List.reverse_reverse]
    rw [List.head?_reverse]
    exact hs.2

theorem trim_append_left {a : List Char} (ha : AllBlank a) (s : List Char) :
    trim (a ++ s) = trim s := by
  rw [trim, trim, trimStart, trimStart, List.dropWhile_append_of_pos ha]

theorem trimStart_spec (s : List Char) : ∃ a, AllBlank a ∧ s = a ++ trimStart s ∧
    ∀ c ∈ (trimStart s).head?, isBlank c = false := by
  refine ⟨s.takeWhile isBlank, ?_, (List.takeWhile_append_dropWhile).symm, ?_⟩
  · exact fun c hc => List.all_eq_true.mp List.all_takeWhile c hc
  · intro c hc
    have := List.head?_dropWhile_not isBlank s
    rw [trimStart] at hc
    simp_all

/-- What trimming takes off is white space, and what it leaves is trimmed. -/
theorem trim_spec (s : List Char) :
    ∃ a b, AllBlank a ∧ AllBlank b ∧ s = a ++ trim s ++ b ∧ Trimmed (trim s) := by
  obtain ⟨a, ha, hs, hhead⟩ := trimStart_spec s
  obtain ⟨b, hb, hr, hlast⟩ := trimStart_spec (trimStart s).reverse
  have hr' : trimStart s = trim s ++ b.reverse := by
    rw [trim, trimEnd, ← List.reverse_append]
    exact List.reverse_eq_iff.mp hr
  refine ⟨a, b.reverse, ha, fun c hc => hb c (List.mem_reverse.mp hc), ?_, ?_, ?_⟩
  · rw [List.append_assoc, ← hr']
    exact hs
  · intro c hc
    apply hhead
    rw [hr', List.head?_append, hc]
    rfl
  · rw [trim, trimEnd, List.getLast?_reverse]
    exact hlast

theorem trimmed_trim (s : List Char) : Trimmed (trim s) := by
  obtain ⟨_, _, _, _, _, h⟩ := trim_spec s
  exact h

theorem mem_of_mem_trim {c : Char} {s : List Char} (h : c ∈ trim s) : c ∈ s := by
  obtain ⟨a, b, _, _, hs, _⟩ := trim_spec s
  rw [hs]
  exact List.mem_append_left _ (List.mem_append_right _ h)

theorem trim_isInfix (s : List Char) : trim s <:+: s := by
  obtain ⟨a, b, _, _, hs, _⟩ := trim_spec s
  exact ⟨a, b, hs.symm⟩

end NodeDecl.Text
