import Mathlib.Tactic.SplitIfs
import NodeDecl.Proofs.Grammar.Consistency

/-! # Rejected tables

A table is rejected for the first entry that cannot stand behind those before it, and for the first
rule that this entry breaks. What follows the entry makes no difference.
-/

namespace NodeDecl
open Text

/-- The first rule that an entry breaks where it stands behind the variants `earlier`. -/
inductive Breach (base : String) (earlier : List Variant) (entry : String) : Fault → Prop
  | unreadable {fault} (h : Variant.read entry = .error fault) : Breach base earlier entry fault
  | base {v} (h : Variant.read entry = .ok v) (hbase : v.name = base) :
      Breach base earlier entry (.namedLikeBase v.name)
  | reserved {v} (h : Variant.read entry = .ok v) (hbase : v.name ≠ base)
      (hreserved : v.name ∈ reservedNames) : Breach base earlier entry (.reservedName v.name)
  | name {v} (h : Variant.read entry = .ok v) (hfree : v.Free base)
      (hname : v.name ∈ earlier.map Variant.name) :
      Breach base earlier entry (.duplicateVariant v.name)
  | tag {v} (h : Variant.read entry = .ok v) (hfree : v.Free base)
      (hname : v.name ∉ earlier.map Variant.name) (htag : v.tag ∈ earlier.map Variant.tag) :
      Breach base earlier entry (.collidingTag v.tag)

namespace Variant

variable {base entry : String} {earlier vs : List Variant} {v : Variant} {fault : Fault}
  {r : Rejection} {entries rest : List String}

theorem admit_eq_error_iff :
    Variant.admit base earlier entry = .error fault ↔ Breach base earlier entry fault := by
  constructor
  · intro h
    unfold Variant.admit at h
    cases hread : read entry with
    | error own =>
      rw [hread] at h
      cases h
      exact .unreadable hread
    | ok v =>
      simp only [hread, clash?] at h
      split_ifs at h with hbase hreserved hname htag <;> cases h
      · exact .base hread hbase
      · exact .reserved hread hbase hreserved
      · exact .name hread ⟨hbase, hreserved⟩ hname
      · exact .tag hread ⟨hbase, hreserved⟩ hname htag
  · intro h
    cases h with
    | unreadable h =>
      unfold Variant.admit
      rw [h]
    | base h hbase => simp only [h, Variant.admit, clash?, if_pos hbase]
    | reserved h hbase hreserved =>
      simp only [h, Variant.admit, clash?, if_neg hbase, if_pos hreserved]
    | name h hfree hname =>
      simp only [h, Variant.admit, clash?, if_neg hfree.1, if_neg hfree.2, if_pos hname]
    | tag h hfree hname htag =>
      simp only [h, Variant.admit, clash?, if_neg hfree.1, if_neg hfree.2, if_neg hname, if_pos htag]

/-- A run of entries ends at its first one, or later once this one is admitted. -/
theorem readRun_cons_eq_some_iff : readRun base earlier (entry :: rest) = (vs, some r) ↔
    (vs = [] ∧ r.entry = entry ∧ Variant.admit base earlier entry = .error r.fault) ∨
      ∃ v others, vs = v :: others ∧ Variant.admit base earlier entry = .ok v ∧
        readRun base (earlier ++ [v]) rest = (others, some r) := by
  obtain ⟨quoted, fault⟩ := r
  rw [readRun]
  cases Variant.admit base earlier entry with
  | error own => simp [eq_comm]
  | ok v =>
    simp only [Prod.mk.injEq, Except.ok.injEq, reduceCtorEq, and_false, false_or]
    constructor
    · rintro ⟨rfl, hsome⟩
      exact ⟨v, _, rfl, rfl, Prod.ext rfl hsome⟩
    · rintro ⟨_, others, rfl, rfl, hrest⟩
      rw [hrest]
      exact ⟨rfl, rfl⟩

/-- A run of entries ends at one that is not admitted behind those before it. -/
theorem readRun_eq_some_iff : readRun base earlier entries = (vs, some r) ↔
    ∃ before after, entries = before ++ r.entry :: after ∧
      readRun base earlier before = (vs, none) ∧
        Variant.admit base (earlier ++ vs) r.entry = .error r.fault := by
  induction entries generalizing earlier vs with
  | nil => simp [readRun]
  | cons entry rest ih =>
    rw [readRun_cons_eq_some_iff]
    constructor
    · rintro (⟨rfl, rfl, h⟩ | ⟨v, others, rfl, hadmit, hrest⟩)
      · exact ⟨[], rest, rfl, rfl, by rwa [List.append_nil]⟩
      · obtain ⟨before, after, rfl, hbefore, hrejected⟩ := ih.mp hrest
        refine ⟨entry :: before, after, rfl, ?_, by rwa [List.append_assoc] at hrejected⟩
        exact readRun_cons_eq_iff.mpr ⟨v, others, rfl, hadmit, hbefore⟩
    · rintro ⟨before, after, hentries, hbefore, hrejected⟩
      cases before with
      | nil =>
        cases hentries
        cases hbefore
        exact .inl ⟨rfl, rfl, by rwa [List.append_nil] at hrejected⟩
      | cons first before =>
        cases hentries
        obtain ⟨v, others, rfl, hadmit, hothers⟩ := readRun_cons_eq_iff.mp hbefore
        refine .inr ⟨v, others, rfl, hadmit, ih.mpr ⟨before, after, rfl, hothers, ?_⟩⟩
        rwa [List.append_assoc]

end Variant

namespace Grammar

variable {base : String} {entries : List String} {g : Grammar} {r : Rejection}

theorem read_of_not_isName (hname : isName (trim base.toList) = false) :
    read base entries = .error ⟨.ofList (trim base.toList), .badBase⟩ := by
  rw [read]
  exact if_pos hname

theorem read_eq_error_iff (hname : isName (trim base.toList) = true) :
    read base entries = .error r ↔ ∃ before after g, entries = before ++ r.entry :: after ∧
      read base before = .ok g ∧ Breach g.base g.variants r.entry r.fault := by
  have hrun : read base entries = .error r ↔
      ∃ vs, Variant.readRun (.ofList (trim base.toList)) [] entries = (vs, some r) := by
    rw [read]
    simp only [hname, Bool.true_eq_false, if_false]
    rcases Variant.readRun (.ofList (trim base.toList)) [] entries with ⟨vs, _ | own⟩ <;> simp
  have hbase : isName (String.ofList (trim base.toList)).toList = true := by
    rw [String.toList_ofList]
    exact hname
  rw [hrun]
  simp only [Variant.readRun_eq_some_iff, List.nil_append, Variant.admit_eq_error_iff]
  constructor
  · rintro ⟨vs, before, after, hentries, hbefore, hbreach⟩
    exact ⟨before, after, ⟨_, vs⟩, hentries, read_eq_ok_iff_readRun.mpr ⟨rfl, hbase, hbefore⟩,
      hbreach⟩
  · rintro ⟨before, after, g, hentries, hbefore, hbreach⟩
    obtain ⟨hg, -, hrun⟩ := read_eq_ok_iff_readRun.mp hbefore
    rw [hg] at hrun hbreach
    exact ⟨g.variants, before, after, hentries, hrun, hbreach⟩

/-- A rejected table stays rejected, for the same reason, whatever follows. -/
theorem read_append_of_error (h : read base entries = .error r) (later : List String) :
    read base (entries ++ later) = .error r := by
  cases hname : isName (trim base.toList) with
  | false =>
    rw [read_of_not_isName hname] at h ⊢
    exact h
  | true =>
    obtain ⟨before, after, g, rfl, hbefore, hbreach⟩ := (read_eq_error_iff hname).mp h
    refine (read_eq_error_iff hname).mpr ⟨before, after ++ later, g, ?_, hbefore, hbreach⟩
    rw [List.append_assoc, List.cons_append]

theorem exists_read_of_append {later : List String} (h : read base (entries ++ later) = .ok g) :
    ∃ g', read base entries = .ok g' := by
  cases hread : read base entries with
  | ok g' => exact ⟨g', rfl⟩
  | error r =>
    rw [read_append_of_error hread] at h
    cases h

/-- Variants of different tags have different names. -/
theorem consistent_iff_of_map_read (h : entries.map Variant.read = g.variants.map .ok) :
    g.Consistent ↔ isName g.base.toList = true ∧ (∀ v ∈ g.variants, v.Free g.base) ∧
      (g.variants.map Variant.tag).Nodup := by
  constructor
  · exact fun hg => ⟨hg.base, hg.free, hg.nodup_tags⟩
  · rintro ⟨hbase, hfree, htags⟩
    refine ⟨hbase, fun v hv => Variant.plain_of_map_read h hv, hfree, ?_⟩
    refine (List.pairwise_map.mp htags).imp fun {v w} htag => ⟨fun hname => htag ?_, htag⟩
    rw [Variant.tag, Variant.tag, hname]

/-- A table is accepted if its trimmed base name is an identifier, all entries can be read, no
variant has a name that is taken, and no two tags are the same. Otherwise, and if the base name is
an identifier, it is rejected for the last entry of its shortest rejected beginning: all shorter
beginnings are accepted, and whatever follows the entry, the rejection is the same. -/
theorem read_consistent_or_breach (base : String) (entries : List String) :
    (∀ g, read base entries = .ok g ↔
      isName (trim base.toList) = true ∧ g.base = .ofList (trim base.toList) ∧
        entries.map Variant.read = g.variants.map .ok ∧
        (∀ v ∈ g.variants, v.name ≠ g.base ∧ v.name ∉ ["std", "Token", "Box"]) ∧
        (g.variants.map Variant.tag).Nodup) ∧
    (isName (trim base.toList) = false →
      read base entries = .error ⟨.ofList (trim base.toList), .badBase⟩) ∧
    (isName (trim base.toList) = true → ∀ r, read base entries = .error r ↔
      ∃ before after g, entries = before ++ r.entry :: after ∧ read base before = .ok g ∧
        Breach g.base g.variants r.entry r.fault ∧
        (∀ shorter, shorter <+: before → ∃ g', read base shorter = .ok g') ∧
        ∀ later, read base (before ++ r.entry :: later) = .error r) := by
  refine ⟨fun g => ?_, read_of_not_isName, fun hname r => ?_⟩
  · rw [read_eq_ok_iff]
    constructor
    · rintro ⟨hbase, hreads, hg⟩
      obtain ⟨hname, hfree, htags⟩ := (consistent_iff_of_map_read hreads).mp hg
      rw [hbase, String.toList_ofList] at hname
      exact ⟨hname, hbase, hreads, hfree, htags⟩
    · rintro ⟨hname, hbase, hreads, hfree, htags⟩
      refine ⟨hbase, hreads, (consistent_iff_of_map_read hreads).mpr ⟨?_, hfree, htags⟩⟩
      rw [hbase, String.toList_ofList]
      exact hname
  · constructor
    · intro h
      obtain ⟨before, after, g, hentries, hbefore, hbreach⟩ := (read_eq_error_iff hname).mp h
      refine ⟨before, after, g, hentries, hbefore, hbreach, ?_, fun later => ?_⟩
      · rintro shorter ⟨others, rfl⟩
        exact exists_read_of_append hbefore
      · exact (read_eq_error_iff hname).mpr ⟨before, later, g, rfl, hbefore, hbreach⟩
    · rintro ⟨before, after, g, rfl, -, -, -, hlater⟩
      exact hlater after

/-- The second entry has the tag of the first. That the third cannot be read makes no difference. -/
theorem read_collidingTag : isName (trim " E\n".toList) = true ∧
    ∀ later, read " E\n" ("Ab : a: T" :: "AB : b: U" :: later) =
      .error ⟨"AB : b: U", .collidingTag "ab"⟩ := by
  have hname : isName (trim " E\n".toList) = true := by decide
  have hread : read " E\n" ["Ab : a: T", "AB : b: U", "junk"] =
      .error ⟨"AB : b: U", .collidingTag "ab"⟩ := rfl
  obtain ⟨before, after, g, hentries, -, -, -, hlater⟩ :=
    ((read_consistent_or_breach _ _).2.2 hname _).mp hread
  have hbefore : before = ["Ab : a: T"] := by
    match before with
    | [] => exact absurd (List.cons.inj hentries).1 (by decide)
    | [first] => rw [← (List.cons.inj hentries).1]
    | _ :: _ :: rest =>
      have hmem : "AB : b: U" ∈ ["junk"] := by
        rw [(List.cons.inj (List.cons.inj hentries).2).2]
        exact List.mem_append_right rest List.mem_cons_self
      exact absurd hmem (by decide)
  subst hbefore
  exact ⟨hname, hlater⟩

end Grammar

end NodeDecl
