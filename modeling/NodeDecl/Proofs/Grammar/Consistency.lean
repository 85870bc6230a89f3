import NodeDecl.Proofs.Grammar.RoundTrip

/-! # Consistent grammars

A grammar is consistent if an entry can be written for each variant and no variant clashes with the
base type, with a reserved name or with another variant. Reading accepts a table if its entries
read as the variants of a consistent grammar, and only then.
-/

namespace NodeDecl
open Text

/-- Two variants that can stand in one grammar: neither their names nor their tags agree. -/
def Variant.Apart (v w : Variant) : Prop := v.name ≠ w.name ∧ v.tag ≠ w.tag

/-- A variant that leaves the base type and the names of the head alone. -/
def Variant.Free (base : String) (v : Variant) : Prop :=
  v.name ≠ base ∧ v.name ∉ reservedNames

/-- A grammar in which everything that needs a name of its own has one. -/
structure Grammar.Consistent (g : Grammar) : Prop where
  base : isName g.base.toList = true
  plain : ∀ v ∈ g.variants, v.Plain
  free : ∀ v ∈ g.variants, v.Free g.base
  apart : g.variants.Pairwise Variant.Apart

theorem Grammar.Consistent.nodup_names {g : Grammar} (h : g.Consistent) :
    (g.variants.map Variant.name).Nodup :=
  List.pairwise_map.mpr (h.apart.imp fun hvw => hvw.1)

theorem Grammar.Consistent.nodup_tags {g : Grammar} (h : g.Consistent) :
    (g.variants.map Variant.tag).Nodup :=
  List.pairwise_map.mpr (h.apart.imp fun hvw => hvw.2)

namespace Variant

variable {base entry : String} {earlier vs : List Variant} {v : Variant} {rest : List String}

theorem clash?_eq_none_iff :
    v.clash? base earlier = none ↔ v.Free base ∧ ∀ e ∈ earlier, e.Apart v := by
  have hapart : (∀ e ∈ earlier, e.Apart v) ↔
      v.name ∉ earlier.map name ∧ v.tag ∉ earlier.map tag := by
    simp only [List.mem_map, not_exists, not_and]
    exact ⟨fun h => ⟨fun e he => (h e he).1, fun e he => (h e he).2⟩,
      fun h e he => ⟨h.1 e he, h.2 e he⟩⟩
  rw [hapart, Free, clash?]
  split
  · next h => simp [h]
  · split
    · next h => simp [h]
    · split
      · next h => simp only [reduceCtorEq, h, not_true_eq_false, false_and, and_false]
      · split
        · next h => simp only [reduceCtorEq, h, not_true_eq_false, and_false]
        · next hbase hreserved hname htag =>
          exact ⟨fun _ => ⟨⟨hbase, hreserved⟩, hname, htag⟩, fun _ => rfl⟩

theorem admit_eq_ok_iff : Variant.admit base earlier entry = .ok v ↔
    read entry = .ok v ∧ v.Free base ∧ ∀ e ∈ earlier, e.Apart v := by
  rw [← clash?_eq_none_iff, Variant.admit]
  cases read entry with
  | error fault => simp
  | ok w =>
    cases hclash : w.clash? base earlier with
    | some fault =>
      simp only [hclash, reduceCtorEq, Except.ok.injEq, false_iff]
      rintro ⟨rfl, hfree⟩
      rw [hclash] at hfree
      cases hfree
    | none =>
      simp only [hclash, Except.ok.injEq, iff_self_and]
      rintro rfl
      exact hclash

/-- One more entry is accepted if it is admitted and the rest is accepted after it. -/
theorem readRun_cons_eq_iff : readRun base earlier (entry :: rest) = (vs, none) ↔
    ∃ v others, vs = v :: others ∧ Variant.admit base earlier entry = .ok v ∧
      readRun base (earlier ++ [v]) rest = (others, none) := by
  rw [readRun]
  cases Variant.admit base earlier entry with
  | error fault => simp
  | ok v =>
    simp only [Prod.mk.injEq, Except.ok.injEq]
    constructor
    · rintro ⟨rfl, hnone⟩
      exact ⟨v, _, rfl, rfl, Prod.ext rfl hnone⟩
    · rintro ⟨_, others, rfl, rfl, hrest⟩
      rw [hrest]
      exact ⟨rfl, rfl⟩

/-- Entries are accepted if they read as variants of which each can stand after those before. -/
theorem readRun_eq_iff {entries : List String} : readRun base earlier entries = (vs, none) ↔
    entries.map read = vs.map .ok ∧ (∀ v ∈ vs, v.Free base) ∧ vs.Pairwise Apart ∧
      ∀ e ∈ earlier, ∀ v ∈ vs, e.Apart v := by
  induction entries generalizing earlier vs with
  | nil => cases vs <;> simp [readRun]
  | cons entry rest ih =>
    rw [readRun_cons_eq_iff]
    constructor
    · rintro ⟨v, others, rfl, hadmit, hrest⟩
      obtain ⟨hread, hfree, hearlier⟩ := admit_eq_ok_iff.mp hadmit
      obtain ⟨hreads, hfrees, hapart, hothers⟩ := ih.mp hrest
      refine ⟨by rw [List.map_cons, List.map_cons, hread, hreads],
        List.forall_mem_cons.mpr ⟨hfree, hfrees⟩, List.pairwise_cons.mpr ⟨?_, hapart⟩, ?_⟩
      · exact hothers v (List.mem_append_right earlier List.mem_cons_self)
      · exact fun e he => List.forall_mem_cons.mpr
          ⟨hearlier e he, hothers e (List.mem_append_left [v] he)⟩
    · rintro ⟨hreads, hfrees, hapart, hothers⟩
      cases vs with
      | nil => cases hreads
      | cons v others =>
        obtain ⟨hread, hreads⟩ := List.cons.inj hreads
        obtain ⟨hfree, hfrees⟩ := List.forall_mem_cons.mp hfrees
        obtain ⟨hv, hapart⟩ := List.pairwise_cons.mp hapart
        refine ⟨v, others, rfl, admit_eq_ok_iff.mpr ⟨hread, hfree, fun e he => ?_⟩,
          ih.mpr ⟨hreads, hfrees, hapart, fun e he w hw => ?_⟩⟩
        · exact hothers e he v List.mem_cons_self
        · rcases List.mem_append.mp he with he | he
          · exact hothers e he w (List.mem_cons_of_mem v hw)
          · rw [List.mem_singleton.mp he]
            exact hv w hw

theorem plain_of_map_read {entries : List String} (h : entries.map read = vs.map .ok)
    (hv : v ∈ vs) : v.Plain := by
  have hmem : Except.ok v ∈ entries.map read := by
    rw [h]
    exact List.mem_map_of_mem hv
  obtain ⟨entry, -, hread⟩ := List.mem_map.mp hmem
  exact plain_of_read hread

end Variant

namespace Grammar

variable {base : String} {entries : List String} {g : Grammar}

theorem read_eq_ok_iff_readRun : read base entries = .ok g ↔
    g.base = .ofList (trim base.toList) ∧ isName g.base.toList = true ∧
      Variant.readRun g.base [] entries = (g.variants, none) := by
  obtain ⟨name, vs⟩ := g
  rw [read]
  by_cases hname : isName (trim base.toList) = true
  · simp only [hname, Bool.true_eq_false, if_false]
    cases hrun : Variant.readRun (.ofList (trim base.toList)) [] entries with
    | mk ws rejection? =>
      constructor
      · intro h
        cases rejection? with
        | some rejection => cases h
        | none =>
          cases h
          exact ⟨rfl, by rw [String.toList_ofList]; exact hname, hrun⟩
      · rintro ⟨rfl, -, h⟩
        rw [hrun] at h
        cases h
        rfl
  · simp only [Bool.eq_false_iff.mpr hname, if_true, reduceCtorEq, false_iff]
    rintro ⟨rfl, h, -⟩
    rw [String.toList_ofList] at h
    exact hname h

/-- A table is accepted with the variants that its entries read as, if they make a consistent
grammar with the trimmed base name. -/
theorem read_eq_ok_iff : read base entries = .ok g ↔ g.base = .ofList (trim base.toList) ∧
    entries.map Variant.read = g.variants.map .ok ∧ g.Consistent := by
  rw [read_eq_ok_iff_readRun, Variant.readRun_eq_iff]
  constructor
  · rintro ⟨hbase, hname, hreads, hfree, hapart, -⟩
    exact ⟨hbase, hreads, hname, fun v hv => Variant.plain_of_map_read hreads hv, hfree, hapart⟩
  · rintro ⟨hbase, hreads, hg⟩
    exact ⟨hbase, hg.base, hreads, hg.free, hg.apart, nofun⟩

theorem consistent_of_read (h : read base entries = .ok g) : g.Consistent :=
  (read_eq_ok_iff.mp h).2.2

end Grammar

end NodeDecl
