import NodeDecl.Grammar.Basic
import NodeDecl.Proofs.Text.Trimming

/-! # Names

A name holds letters, digits and underscores, so neither white space nor the punctuation of an
entry or of a declaration stands in it. Lower-casing keeps that.
-/

namespace NodeDecl
open Text

theorem isNameChar_iff {c : Char} : isNameChar c = true ↔
    (48 ≤ c.toNat ∧ c.toNat ≤ 57) ∨ (65 ≤ c.toNat ∧ c.toNat ≤ 90) ∨ c.toNat = 95 ∨
      (97 ≤ c.toNat ∧ c.toNat ≤ 122) := by
  have hu : c = '_' ↔ c.toNat = 95 :=
    ⟨fun h => by rw [h]; rfl, fun h => Char.toNat_inj.mp h⟩
  delta isNameChar Char.isAlphanum Char.isAlpha Char.isUpper Char.isLower Char.isDigit
  simp only [Bool.or_eq_true, beq_iff_eq, hu, decide_eq_true_eq, Bool.and_eq_true, ge_iff_le,
    UInt32.le_iff_toNat_le]
  change _ ↔ (48 ≤ c.val.toNat ∧ _) ∨ (65 ≤ c.val.toNat ∧ _) ∨ c.val.toNat = 95 ∨ _
  simp
  omega

theorem isBlank_of_isNameChar {c : Char} (h : isNameChar c = true) : isBlank c = false := by
  rw [isNameChar_iff] at h
  simp only [isBlank, Bool.or_eq_false_iff, Bool.and_eq_false_iff, decide_eq_false_iff_not,
    beq_eq_false_iff_ne]
  omega

theorem isNameChar_toLower {c : Char} (h : isNameChar c = true) : isNameChar c.toLower = true := by
  unfold Char.toLower
  split
  · next hc =>
    simp only [ge_iff_le, UInt32.le_iff_toNat_le] at hc
    rw [isNameChar_iff]
    simp only [Char.toNat, UInt32.toNat_add]
    simp at hc ⊢
    omega
  · exact h

theorem isNameChar_of_isName {s : List Char} (h : isName s = true) :
    ∀ c ∈ s, isNameChar c = true := by
  cases s with
  | nil => cases h
  | cons d s =>
    rw [isName, Bool.and_eq_true, List.all_eq_true] at h
    intro c hc
    rcases List.mem_cons.mp hc with rfl | hc
    · have hd := h.1
      simp only [isNameStart, isNameChar, Char.isAlphanum, Bool.or_eq_true] at hd ⊢
      rcases hd with hd | hd
      · exact .inl (.inl hd)
      · exact .inr hd
    · exact h.2 c hc

theorem ne_nil_of_isName {s : List Char} (h : isName s = true) : s ≠ [] := by
  rintro rfl
  cases h

theorem not_mem_of_isNameChar {s : List Char} (h : ∀ c ∈ s, isNameChar c = true) {c : Char}
    (hc : isNameChar c = false) : c ∉ s := fun hm => by
  rw [h c hm] at hc
  cases hc

theorem not_mem_of_isName {s : List Char} (h : isName s = true) {c : Char}
    (hc : isNameChar c = false) : c ∉ s :=
  not_mem_of_isNameChar (isNameChar_of_isName h) hc

theorem trimmed_of_isName {s : List Char} (h : isName s = true) : Trimmed s :=
  .of_all fun c hc => isBlank_of_isNameChar (isNameChar_of_isName h c hc)

theorem Variant.isNameChar_of_mem_tag {v : Variant} (h : isName v.name.toList = true) :
    ∀ c ∈ v.tag.toList, isNameChar c = true := by
  intro c hc
  rw [Variant.tag, String.toList_ofList, List.mem_map] at hc
  obtain ⟨d, hd, rfl⟩ := hc
  exact isNameChar_toLower (isNameChar_of_isName h d hd)

end NodeDecl
