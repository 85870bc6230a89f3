import NodeDecl.Grammar.Table
import NodeDecl.Proofs.Grammar.Names
import NodeDecl.Proofs.Text.Cutting

/-! # What reading accepts

For each reader, the texts that it accepts and the value that it makes of them.
-/

namespace NodeDecl
open Text

theorem Field.read_eq_ok_iff {segment : List Char} {f : Field} :
    Field.read segment = .ok f ↔ ∃ before after, cut? ':' segment = some (before, after) ∧
      isName (trim before) = true ∧ trim after ≠ [] ∧
      f = ⟨.ofList (trim before), .ofList (trim after)⟩ := by
  unfold Field.read
  cases hcut : cut? ':' segment with
  | none => simp
  | some p =>
    obtain ⟨before, after⟩ := p
    by_cases hname : isName (trim before) = true
    · by_cases htype : trim after = []
      · simp [hname, htype, ne_nil_of_isName hname]
      · simp only [ne_nil_of_isName hname, hname, htype, if_false, Bool.true_eq_false,
          Except.ok.injEq]
        constructor
        · rintro rfl
          exact ⟨before, after, rfl, hname, htype, rfl⟩
        · rintro ⟨_, _, he, _, _, rfl⟩
          cases he
          rfl
    · by_cases hempty : trim before = []
      · simp [hempty, show isName [] = false from rfl]
      · simp [hname, hempty]

/-- One more segment is read if it is a field whose name is free. -/
theorem Field.readAll_cons_eq_ok_iff {earlier fields : List Field} {segment : List Char}
    {rest : List (List Char)} :
    Field.readAll earlier (segment :: rest) = .ok fields ↔
      ∃ f others, fields = f :: others ∧ Field.read segment = .ok f ∧
        f.name ∉ earlier.map Field.name ∧ Field.readAll (earlier ++ [f]) rest = .ok others := by
  rw [Field.readAll]
  cases Field.read segment with
  | error fault => simp
  | ok f =>
    by_cases htaken : f.name ∈ earlier.map Field.name
    · simp only [if_pos htaken, reduceCtorEq, Except.ok.injEq, false_iff]
      rintro ⟨_, _, _, rfl, hfree, _⟩
      exact hfree htaken
    · simp only [if_neg htaken, Except.ok.injEq]
      constructor
      · intro h
        cases hrest : Field.readAll (earlier ++ [f]) rest with
        | error fault => rw [hrest] at h; cases h
        | ok others => rw [hrest] at h; cases h; exact ⟨f, others, rfl, rfl, htaken, hrest⟩
      · rintro ⟨_, others, rfl, rfl, _, hrest⟩
        rw [hrest]

/-- Segments are read one by one, and no name may be taken. -/
theorem Field.readAll_eq_ok_iff {earlier fields : List Field} {segments : List (List Char)} :
    Field.readAll earlier segments = .ok fields ↔
      segments.map Field.read = fields.map .ok ∧ (fields.map Field.name).Nodup ∧
        ∀ f ∈ fields, f.name ∉ earlier.map Field.name := by
  induction segments generalizing earlier fields with
  | nil => cases fields <;> simp [Field.readAll]
  | cons segment rest ih =>
    rw [Field.readAll_cons_eq_ok_iff]
    constructor
    · rintro ⟨f, others, rfl, hf, hfree, hrest⟩
      obtain ⟨hread, hnodup, hothers⟩ := ih.mp hrest
      refine ⟨by simp [hf, hread], ?_, ?_⟩
      · rw [List.map_cons, List.nodup_cons]
        refine ⟨fun h => ?_, hnodup⟩
        obtain ⟨g, hg, he⟩ := List.mem_map.mp h
        exact hothers g hg (by simp [he])
      · intro g hg
        rcases List.mem_cons.mp hg with rfl | hg
        · exact hfree
        · exact fun h => hothers g hg (by simp_all)
    · rintro ⟨hread, hnodup, hfree⟩
      cases fields with
      | nil => cases hread
      | cons f others =>
        rw [List.map_cons, List.map_cons, List.cons.injEq] at hread
        rw [List.map_cons, List.nodup_cons] at hnodup
        refine ⟨f, others, rfl, hread.1, hfree f List.mem_cons_self,
          ih.mpr ⟨hread.2, hnodup.2, fun g hg h => ?_⟩⟩
        rw [List.map_append, List.mem_append] at h
        rcases h with h | h
        · exact hfree g (List.mem_cons_of_mem _ hg) h
        · exact hnodup.1 (List.mem_map.mpr ⟨g, hg, by simpa using h⟩)

theorem Variant.read_eq_ok_iff {entry : String} {v : Variant} :
    Variant.read entry = .ok v ↔ ∃ before after, cut? ':' entry.toList = some (before, after) ∧
      isName (trim before) = true ∧ v.name = .ofList (trim before) ∧
      (pieces (trim after)).map Field.read = v.fields.map .ok ∧
      (v.fields.map Field.name).Nodup := by
  unfold Variant.read
  cases hcut : cut? ':' entry.toList with
  | none => simp
  | some p =>
    obtain ⟨before, after⟩ := p
    have hfields (fields : List Field) : Field.readAll [] (pieces (trim after)) = .ok fields ↔
        (pieces (trim after)).map Field.read = fields.map .ok ∧
          (fields.map Field.name).Nodup := by
      rw [Field.readAll_eq_ok_iff]
      simp
    by_cases hname : isName (trim before) = true
    · simp only [ne_nil_of_isName hname, hname, if_false, Bool.true_eq_false]
      constructor
      · intro h
        cases hread : Field.readAll [] (pieces (trim after)) with
        | error fault => rw [hread] at h; cases h
        | ok fields =>
          rw [hread] at h
          cases h
          exact ⟨before, after, rfl, hname, rfl, (hfields fields).mp hread⟩
      · rintro ⟨_, _, he, _, hv, hread⟩
        cases he
        rw [(hfields v.fields).mpr hread, ← hv]
    · by_cases hempty : trim before = []
      · simp [hempty, show isName [] = false from rfl]
      · simp [hname, hempty]

theorem Variant.isName_of_read {entry : String} {v : Variant} (h : Variant.read entry = .ok v) :
    isName v.name.toList = true := by
  obtain ⟨before, after, _, hname, hv, _⟩ := Variant.read_eq_ok_iff.mp h
  rw [hv, String.toList_ofList]
  exact hname

/-- Each field of a variant is read from a piece of the entry. -/
theorem Variant.exists_piece_of_read {entry : String} {v : Variant}
    (h : Variant.read entry = .ok v) {f : Field} (hf : f ∈ v.fields) :
    ∃ piece, Field.read piece = .ok f ∧ ¬ separator <:+: piece ∧
      ∀ c ∈ piece, c ∈ entry.toList := by
  obtain ⟨before, after, hcut, _, _, hfields, _⟩ := Variant.read_eq_ok_iff.mp h
  have hmem : Except.ok f ∈ (pieces (trim after)).map Field.read := by
    rw [hfields]
    exact List.mem_map.mpr ⟨f, hf, rfl⟩
  obtain ⟨piece, hpiece, hread⟩ := List.mem_map.mp hmem
  refine ⟨piece, hread, not_infix_of_mem_pieces hpiece, fun c hc => ?_⟩
  have hafter : c ∈ trim after := by
    rw [← joinPieces_pieces (trim after)]
    exact mem_of_mem_joinPieces hpiece hc
  rw [(eq_append_of_cut? hcut).2]
  exact List.mem_append_right _ (List.mem_cons_of_mem _ (mem_of_mem_trim hafter))

theorem Field.isName_of_read {piece : List Char} {f : Field} (h : Field.read piece = .ok f) :
    isName f.name.toList = true := by
  obtain ⟨before, after, _, hname, _, rfl⟩ := Field.read_eq_ok_iff.mp h
  rw [String.toList_ofList]
  exact hname

/-- The type of a field is a trimmed part of the piece that it is read from. -/
theorem Field.type_of_read {piece : List Char} {f : Field} (h : Field.read piece = .ok f) :
    f.type.toList ≠ [] ∧ Trimmed f.type.toList ∧ f.type.toList <:+: piece := by
  obtain ⟨before, after, hcut, _, htype, rfl⟩ := Field.read_eq_ok_iff.mp h
  rw [String.toList_ofList]
  refine ⟨htype, trimmed_trim after, (trim_isInfix after).trans ?_⟩
  rw [(eq_append_of_cut? hcut).2]
  exact ⟨before ++ [':'], [], by simp⟩

/-- A table that is accepted is read entry by entry. -/
theorem Variant.map_read_of_readRun {base : String} {earlier vs : List Variant}
    {entries : List String} (h : Variant.readRun base earlier entries = (vs, none)) :
    entries.map Variant.read = vs.map .ok := by
  induction entries generalizing earlier vs with
  | nil => cases h; rfl
  | cons entry rest ih =>
    rw [Variant.readRun] at h
    unfold Variant.admit at h
    cases hread : Variant.read entry with
    | error fault => simp [hread] at h
    | ok v =>
      cases hclash : v.clash? base earlier with
      | some fault => simp [hread, hclash] at h
      | none =>
        simp only [hread, hclash, Prod.mk.injEq] at h
        obtain ⟨rfl, hrest⟩ := h
        rw [List.map_cons, List.map_cons, hread, ih (Prod.ext rfl hrest)]

theorem Grammar.read_eq_ok {base : String} {entries : List String} {g : Grammar}
    (h : Grammar.read base entries = .ok g) :
    isName g.base.toList = true ∧ entries.map Variant.read = g.variants.map .ok := by
  unfold Grammar.read at h
  by_cases hname : isName (trim base.toList) = true
  · simp only [hname, Bool.true_eq_false, if_false] at h
    split at h
    · cases h
    · next vs hrun =>
      cases h
      exact ⟨by rw [String.toList_ofList]; exact hname, Variant.map_read_of_readRun hrun⟩
  · simp [hname] at h

theorem Grammar.exists_entry_of_read {base : String} {entries : List String} {g : Grammar}
    (h : Grammar.read base entries = .ok g) {v : Variant} (hv : v ∈ g.variants) :
    ∃ entry ∈ entries, Variant.read entry = .ok v := by
  have hmem : Except.ok v ∈ entries.map Variant.read := by
    rw [(Grammar.read_eq_ok h).2]
    exact List.mem_map.mpr ⟨v, hv, rfl⟩
  exact List.mem_map.mp hmem

end NodeDecl
