import NodeDecl.Proofs.Layout.Resolution

/-! # What is logged for a field

At most one event is logged for a field: that its type was made indirect, that it was spelled anew,
or that it would be written as the indirect base type if there were no white space in it. The last
is a warning. It is missing, for Rust only, where the base type with a star is meant.
-/

namespace NodeDecl
open Text

namespace Text

/-- The text without its white space. -/
def compacted (s : String) : String := .ofList (withoutBlanks s.toList)

/-- There is white space in the text. -/
def Spaced (s : String) : Prop := s.toList.any isBlank = true

instance (s : String) : Decidable (Spaced s) := instDecidableEqBool _ _

theorem spaced_iff {s : String} : Spaced s ↔ ∃ c ∈ s.toList, isBlank c = true := List.any_eq_true

theorem not_spaced_compacted (s : String) : ¬Spaced (compacted s) := by
  rw [spaced_iff]
  rintro ⟨c, hc, hblank⟩
  rw [compacted, String.toList_ofList, withoutBlanks, List.mem_filter] at hc
  simp [hblank] at hc

theorem compacted_ne_iff {s : String} : compacted s ≠ s ↔ Spaced s := by
  constructor
  · intro hne
    by_contra h
    have hall : ∀ c ∈ s.toList, (!isBlank c) = true := fun c hc => by
      rw [Bool.not_eq_true', Bool.eq_false_iff]
      exact fun hblank => h (spaced_iff.mpr ⟨c, hc, hblank⟩)
    apply hne
    rw [compacted, withoutBlanks, List.filter_eq_self.mpr hall, String.ofList_toList]
  · intro h he
    apply not_spaced_compacted s
    rw [he]
    exact h

end Text

namespace Target

variable {t : Target} {base type : String}

theorem spaced_indirect (h : Spaced base) (t : Target) : Spaced (t.indirect base) := by
  obtain ⟨c, hc, hblank⟩ := spaced_iff.mp h
  refine spaced_iff.mpr ⟨c, ?_, hblank⟩
  cases t <;> simp [indirect, hc]

/-- There is white space in the type, and it would be written as the indirect base type if there
were none. -/
def Misspells (t : Target) (base type : String) : Prop :=
  Spaced type ∧ (t.resolve base (compacted type)).1 = t.indirect base

instance (t : Target) (base type : String) : Decidable (t.Misspells base type) :=
  inferInstanceAs (Decidable (_ ∧ _))

theorem misspells_iff : t.Misspells base type ↔ Spaced type ∧
    (compacted type = base ∨ compacted type = "*" ++ base ∨ compacted type = t.indirect base) := by
  rw [Misspells, resolve_eq_indirect_iff]

theorem Misspells.not_spaced (h : t.Misspells base type) : ¬Spaced base := by
  intro hbase
  apply not_spaced_compacted type
  rcases (misspells_iff.mp h).2 with he | he | he
  · exact he ▸ hbase
  · exact he ▸ spaced_indirect hbase zig
  · exact he ▸ spaced_indirect hbase t

/-- A misspelled type is written as it is declared. -/
theorem Misspells.resolve_eq (h : t.Misspells base type) : t.resolve base type = (type, false) := by
  have hbase := h.not_spaced
  rcases resolve_cases t base type with ⟨rfl, -⟩ | ⟨-, rfl, -⟩ | ⟨-, -, hw⟩
  · exact absurd h.1 hbase
  · obtain ⟨c, hc, hblank⟩ := spaced_iff.mp h.1
    rw [String.toList_append, List.mem_append] at hc
    rcases hc with hc | hc
    · rw [List.mem_singleton.mp hc] at hblank
      cases hblank
    · exact absurd (spaced_iff.mpr ⟨c, hc, hblank⟩) hbase
  · exact hw

theorem nearMiss_iff : t.nearMiss base type = true ↔
    Spaced type ∧ (compacted type = base ∨ compacted type = t.indirect base) := by
  rw [nearMiss, ← compacted_ne_iff]
  simp [compacted]

/-- A misspelled type is noticed, unless it is the star form for Rust. -/
theorem nearMiss_iff_misspells : t.nearMiss base type = true ↔
    t.Misspells base type ∧ ¬(t = rust ∧ compacted type = "*" ++ base) := by
  rw [nearMiss_iff, misspells_iff, and_assoc]
  refine and_congr_right' ?_
  constructor
  · rintro (h | h)
    · exact ⟨.inl h, fun hstar => starred_ne base (hstar.2.symm.trans h)⟩
    · refine ⟨.inr (.inr h), fun ⟨ht, hstar⟩ => ?_⟩
      subst ht
      exact indirect_rust_ne base (h.symm.trans hstar)
  · rintro ⟨h | h | h, hstar⟩
    · exact .inl h
    · cases t with
      | zig => exact .inr h
      | rust => exact absurd ⟨rfl, h⟩ hstar
    · exact .inr h

/-- Only a type that is written as it is declared is noticed. -/
theorem nearMiss_of_resolve_ne (h : (t.resolve base type).1 ≠ type) :
    t.nearMiss base type = false := by
  rw [Bool.eq_false_iff]
  intro hmiss
  rw [(nearMiss_iff_misspells.mp hmiss).1.resolve_eq] at h
  exact h rfl

end Target

namespace Field

variable {t : Target} {base variant : String} {f : Field} {e : Event}

/-- What is logged for a field, if anything is. -/
def remark? (t : Target) (base variant : String) (f : Field) : Option Event :=
  if f.type = base then some (.memberBoxed variant f.name (t.indirect base))
  else if t = .rust ∧ f.type = "*" ++ base then some (.memberRespelled f.type (t.indirect base))
  else if t.nearMiss base f.type then some (.memberSuspicious base variant f.name f.type)
  else none

/-- No more than one event is logged for a field. -/
theorem log_eq (t : Target) (base variant : String) (f : Field) :
    f.log t base variant = (f.remark? t base variant).toList := by
  rcases Target.resolve_cases t base f.type with ⟨hbase, h⟩ | ⟨ht, hstar, h⟩ | ⟨hbase, hstar, h⟩
  · rw [log, Target.resolveLog, remark?, if_pos hbase, if_pos hbase, h]
    rfl
  · have hbase : f.type ≠ base := hstar ▸ Target.starred_ne base
    have hwritten := Target.respelled?_eq_some_iff.mpr ⟨ht, hstar, rfl⟩
    have hmiss : t.nearMiss base f.type = false := by
      apply Target.nearMiss_of_resolve_ne
      rw [h, ht, hstar]
      exact Target.indirect_rust_ne base
    have hs : t = .rust ∧ f.type = "*" ++ base := ⟨ht, hstar⟩
    simp only [log, Target.resolveLog, remark?, if_neg hbase, if_pos hs, hwritten, h, hmiss,
      Bool.false_eq_true, if_false]
    rfl
  · have hwritten : t.respelled? f.type base = none := by
      rw [Option.eq_none_iff_forall_ne_some]
      intro written hsome
      obtain ⟨ht, htype, -⟩ := Target.respelled?_eq_some_iff.mp hsome
      exact hstar ht htype
    have hs : ¬(t = .rust ∧ f.type = "*" ++ base) := fun hs => hstar hs.1 hs.2
    simp only [log, Target.resolveLog, remark?, if_neg hbase, if_neg hs, hwritten, h,
      Bool.false_eq_true, if_false]
    cases t.nearMiss base f.type <;> rfl

/-- When which event is logged. No two of the conditions hold together. -/
theorem remark?_eq_some_iff : f.remark? t base variant = some e ↔
    f.type = base ∧ e = .memberBoxed variant f.name (t.indirect base) ∨
    (t = .rust ∧ f.type = "*" ++ base) ∧ e = .memberRespelled f.type (t.indirect base) ∨
    t.nearMiss base f.type = true ∧ e = .memberSuspicious base variant f.name f.type := by
  have hkept (hmiss : t.nearMiss base f.type = true) :
      f.type ≠ base ∧ ¬(t = .rust ∧ f.type = "*" ++ base) := by
    rw [not_and, ← Target.resolve_eq_self_iff, (Target.nearMiss_iff_misspells.mp hmiss).1.resolve_eq]
  rw [remark?]
  split
  · next hbase =>
    constructor
    · rintro ⟨⟩
      exact .inl ⟨hbase, rfl⟩
    · rintro (⟨-, rfl⟩ | ⟨hs, -⟩ | ⟨hmiss, -⟩)
      · rfl
      · exact absurd (hs.2.symm.trans hbase) (Target.starred_ne base)
      · exact absurd hbase (hkept hmiss).1
  · next hbase =>
    split
    · next hs =>
      constructor
      · rintro ⟨⟩
        exact .inr (.inl ⟨hs, rfl⟩)
      · rintro (⟨h, -⟩ | ⟨-, rfl⟩ | ⟨hmiss, -⟩)
        · exact absurd h hbase
        · rfl
        · exact absurd hs (hkept hmiss).2
    · next hs =>
      split
      · next hmiss =>
        constructor
        · rintro ⟨⟩
          exact .inr (.inr ⟨hmiss, rfl⟩)
        · rintro (⟨h, -⟩ | ⟨h, -⟩ | ⟨-, rfl⟩)
          · exact absurd h hbase
          · exact absurd h hs
          · rfl
      · next hmiss => simp only [hbase, hs, hmiss, false_and, or_self, reduceCtorEq]

/-- What an event tells of the member that is written for the field. -/
theorem remark?_eq_some_iff_member : f.remark? t base variant = some e ↔
    (Member.ofField t base f).boxed = true ∧
      e = .memberBoxed variant f.name (Member.ofField t base f).type ∨
    (t = .rust ∧ f.type = "*" ++ base) ∧
      e = .memberRespelled f.type (Member.ofField t base f).type ∨
    (t.nearMiss base f.type = true ∧ (Member.ofField t base f).type = f.type) ∧
      e = .memberSuspicious base variant f.name f.type := by
  have hindirect (h : f.type = base ∨ f.type = "*" ++ base) :
      (Member.ofField t base f).type = t.indirect base :=
    Target.resolve_eq_indirect_iff.mpr (h.imp_right .inl)
  have hboxed : (Member.ofField t base f).boxed = true ↔ f.type = base := Target.resolve_snd_iff
  have hkept : t.nearMiss base f.type = true ↔
      t.nearMiss base f.type = true ∧ (Member.ofField t base f).type = f.type := by
    refine (and_iff_left_of_imp fun hmiss => ?_).symm
    rw [Member.ofField, (Target.nearMiss_iff_misspells.mp hmiss).1.resolve_eq]
  rw [remark?_eq_some_iff, hboxed, ← hkept]
  refine or_congr (and_congr_right fun h => ?_) (or_congr_left (and_congr_right fun h => ?_))
  · rw [hindirect (.inl h)]
  · rw [hindirect (.inr h.2)]

end Field

namespace Layout

theorem log_eq_remarks (t : Target) (g : Grammar) : Layout.log t g =
    g.variants.flatMap fun v => v.fields.filterMap (Field.remark? t g.base v.name) := by
  have hfield (variant : String) : Field.log t g.base variant =
      fun f => (f.remark? t g.base variant).toList := funext (Field.log_eq t g.base variant)
  simp only [log, hfield, List.filterMap_eq_flatMap_toList]

theorem mem_log_iff {t : Target} {g : Grammar} {e : Event} : e ∈ log t g ↔
    ∃ v ∈ g.variants, ∃ f ∈ v.fields, f.remark? t g.base v.name = some e := by
  simp only [log_eq_remarks, List.mem_flatMap, List.mem_filterMap]

/-- The log warns of a field exactly if there is white space in its type that alone keeps it from
being written as the indirect base type, and what is left of the type is not the star form for Rust.
The type is then written as it is declared. There are no other warnings. -/
theorem warns_iff (t : Target) (g : Grammar) :
    (∀ v ∈ g.variants, ∀ f ∈ v.fields,
      (.memberSuspicious g.base v.name f.name f.type ∈ log t g ↔
        t.Misspells g.base f.type ∧ ¬(t = .rust ∧ compacted f.type = "*" ++ g.base)) ∧
      (t.Misspells g.base f.type →
        Member.ofField t g.base f = ⟨f.name, f.type, false⟩)) ∧
    ∀ e ∈ log t g, e.level = .warn →
      ∃ v ∈ g.variants, ∃ f ∈ v.fields, e = .memberSuspicious g.base v.name f.name f.type := by
  refine ⟨fun v hv f hf => ⟨?_, fun h => ?_⟩, fun e he hlevel => ?_⟩
  · rw [mem_log_iff, ← Target.nearMiss_iff_misspells]
    constructor
    · rintro ⟨v', -, f', -, hremark⟩
      rcases Field.remark?_eq_some_iff.mp hremark with ⟨-, ⟨⟩⟩ | ⟨-, ⟨⟩⟩ | ⟨hmiss, hevent⟩
      injection hevent with _ _ _ htype
      rw [htype]
      exact hmiss
    · intro hmiss
      exact ⟨v, hv, f, hf, Field.remark?_eq_some_iff.mpr (.inr (.inr ⟨hmiss, rfl⟩))⟩
  · rw [Member.ofField, h.resolve_eq]
  · obtain ⟨v, hv, f, hf, hremark⟩ := mem_log_iff.mp he
    rcases Field.remark?_eq_some_iff.mp hremark with ⟨-, rfl⟩ | ⟨-, rfl⟩ | ⟨-, rfl⟩
    · cases hlevel
    · cases hlevel
    · exact ⟨v, hv, f, hf, rfl⟩

/-- A grammar with one field, of the given type. -/
def literalGrammar (type : String) : Grammar := ⟨"Expression", [⟨"Literal", [⟨"value", type⟩]⟩]⟩

theorem warns_literal : Target.rust.Misspells "Expression" "Box< Expression >" ∧
    .memberSuspicious "Expression" "Literal" "value" "Box< Expression >" ∈
      log .rust (literalGrammar "Box< Expression >") ∧
    Member.ofField .rust "Expression" ⟨"value", "Box< Expression >"⟩ =
      ⟨"value", "Box< Expression >", false⟩ := by
  have h := (warns_iff .rust (literalGrammar "Box< Expression >")).1 _ List.mem_cons_self _
    List.mem_cons_self
  have hmisspells : Target.rust.Misspells "Expression" "Box< Expression >" := by decide
  exact ⟨hmisspells, h.1.mpr ⟨hmisspells, by decide⟩, h.2 hmisspells⟩

/-- An accepted table with a misspelled star form: Zig is warned of it, Rust is not. -/
theorem not_warns_starred :
    Grammar.read "Expression" ["Literal : value: * Expression"] =
        .ok (literalGrammar "* Expression") ∧
      (∀ t : Target, t.Misspells "Expression" "* Expression") ∧
      log .zig (literalGrammar "* Expression") =
        [.memberSuspicious "Expression" "Literal" "value" "* Expression"] ∧
      log .rust (literalGrammar "* Expression") = [] := by
  refine ⟨rfl, fun t => ?_, by decide, by decide⟩
  cases t <;> decide

end Layout

end NodeDecl
