import Mathlib.Data.List.Forall2
import NodeDecl.Proofs.Grammar.RoundTrip

/-! # What an entry is made of

An entry is a name, a colon, and segments with separators between them; a segment is a name, a
colon and a type. Reading accepts these texts and no others, and finds the first fault from the
left in every other text.
-/

namespace NodeDecl
open Text

/-- The parts of a text before and behind its first colon, without the white space around them. -/
def HasParts (s label rest : List Char) : Prop :=
  ∃ before after, s = before ++ ':' :: after ∧ ':' ∉ before ∧ trim before = label ∧
    trim after = rest

/-- The segment names the field and its type. -/
structure SegmentOf (segment : List Char) (f : Field) : Prop where
  parts : HasParts segment f.name.toList f.type.toList
  name : isName f.name.toList = true
  type_ne_nil : f.type.toList ≠ []

/-- The segments name the fields, of which no two have one name. -/
structure SegmentsOf (segments : List (List Char)) (fields : List Field) : Prop where
  each : List.Forall₂ SegmentOf segments fields
  nodup : (fields.map Field.name).Nodup

/-- The entry names the variant, and its segments name the fields. -/
structure EntryOf (entry : List Char) (v : Variant) : Prop where
  name : isName v.name.toList = true
  list : ∃ segments, HasParts entry v.name.toList (joinPieces segments) ∧ segments ≠ [] ∧
    (∀ p ∈ segments, ¬ separator <:+: p) ∧ SegmentsOf segments v.fields

/-- The first fault of a segment by itself. -/
inductive SegmentFault (segment : List Char) : Fault → Prop
  | noColon (h : ':' ∉ segment) : SegmentFault segment (.fieldWithoutColon (.ofList (trim segment)))
  | emptyName {type} (h : HasParts segment [] type) : SegmentFault segment .emptyFieldName
  | badName {name type} (h : HasParts segment name type) (hne : name ≠ [])
      (hname : isName name = false) : SegmentFault segment (.badFieldName (.ofList name))
  | emptyType {name} (h : HasParts segment name []) (hname : isName name = true) :
      SegmentFault segment (.emptyFieldType (.ofList name))

/-- The first fault of a segment that stands behind those of the fields `earlier`. -/
inductive FieldFault (earlier : List Field) (segment : List Char) : Fault → Prop
  | segment {fault} (h : SegmentFault segment fault) : FieldFault earlier segment fault
  | duplicate {f} (h : SegmentOf segment f) (htaken : f.name ∈ earlier.map Field.name) :
      FieldFault earlier segment (.duplicateField f.name)

/-- The first fault of an entry, from left to right. -/
inductive EntryFault (entry : List Char) : Fault → Prop
  | noColon (h : ':' ∉ entry) : EntryFault entry .noColon
  | emptyName {rest} (h : HasParts entry [] rest) : EntryFault entry .emptyVariantName
  | badName {name rest} (h : HasParts entry name rest) (hne : name ≠ [])
      (hname : isName name = false) : EntryFault entry (.badVariantName (.ofList name))
  | field {name before segment after fields fault}
      (h : HasParts entry name (joinPieces (before ++ segment :: after)))
      (hname : isName name = true) (hwhole : ∀ p ∈ before ++ segment :: after, ¬ separator <:+: p)
      (hbefore : SegmentsOf before fields) (hfault : FieldFault fields segment fault) :
      EntryFault entry fault

theorem hasParts_or (s : List Char) : ':' ∉ s ∨ ∃ label rest, HasParts s label rest := by
  cases h : cut? ':' s with
  | none => exact .inl (cut?_eq_none_iff.mp h)
  | some p =>
    obtain ⟨hcolon, hs⟩ := eq_append_of_cut? h
    exact .inr ⟨_, _, p.1, p.2, hs, hcolon, rfl, rfl⟩

namespace Field

variable {segment name type : List Char} {f : Field} {fault : Fault}

theorem read_of_not_mem (h : ':' ∉ segment) :
    read segment = .error (.fieldWithoutColon (.ofList (trim segment))) := by
  rw [read, cut?_eq_none_iff.mpr h]

theorem read_of_hasParts (h : HasParts segment name type) : read segment =
    if name = [] then .error .emptyFieldName
    else if isName name = false then .error (.badFieldName (.ofList name))
    else if type = [] then .error (.emptyFieldType (.ofList name))
    else .ok ⟨.ofList name, .ofList type⟩ := by
  obtain ⟨before, after, rfl, hcolon, rfl, rfl⟩ := h
  rw [read, cut?_append hcolon]

theorem read_eq_ok_iff_segmentOf : read segment = .ok f ↔ SegmentOf segment f := by
  constructor
  · intro h
    obtain ⟨before, after, hcut, hname, htype, rfl⟩ := read_eq_ok_iff.mp h
    obtain ⟨hcolon, hsegment⟩ := eq_append_of_cut? hcut
    constructor <;> simp only [String.toList_ofList]
    · exact ⟨before, after, hsegment, hcolon, rfl, rfl⟩
    · exact hname
    · exact htype
  · intro h
    rw [read_of_hasParts h.parts, if_neg (ne_nil_of_isName h.name)]
    simp [h.name, h.type_ne_nil]

theorem read_eq_error_iff : read segment = .error fault ↔ SegmentFault segment fault := by
  constructor
  · intro h
    rcases hasParts_or segment with hcolon | ⟨name, type, hparts⟩
    · rw [read_of_not_mem hcolon] at h
      cases h
      exact .noColon hcolon
    · rw [read_of_hasParts hparts] at h
      split_ifs at h with hempty hname htype
      · cases h
        exact .emptyName (hempty ▸ hparts)
      · cases h
        exact .badName hparts hempty hname
      · cases h
        exact .emptyType (htype ▸ hparts) (by simpa using hname)
  · rintro (hcolon | hparts | ⟨hparts, hne, hname⟩ | ⟨hparts, hname⟩)
    · exact read_of_not_mem hcolon
    · rw [read_of_hasParts hparts, if_pos rfl]
    · rw [read_of_hasParts hparts, if_neg hne, if_pos hname]
    · rw [read_of_hasParts hparts, if_neg (ne_nil_of_isName hname)]
      simp [hname]

theorem map_read_eq_iff_forall₂ {segments : List (List Char)} {fields : List Field} :
    segments.map read = fields.map .ok ↔ List.Forall₂ SegmentOf segments fields := by
  rw [← List.forall₂_eq_eq_eq, List.forall₂_map_left_iff, List.forall₂_map_right_iff]
  simp only [read_eq_ok_iff_segmentOf]

theorem readAll_eq_ok_iff_segmentsOf {segments : List (List Char)} {fields : List Field} :
    readAll [] segments = .ok fields ↔ SegmentsOf segments fields := by
  rw [readAll_eq_ok_iff, map_read_eq_iff_forall₂]
  exact ⟨fun h => ⟨h.1, h.2.1⟩, fun h => ⟨h.each, h.nodup, by simp⟩⟩

variable {earlier : List Field} {rest segments : List (List Char)}

/-- One more segment is at fault, or a later one is once its field is read. -/
theorem readAll_cons_eq_error_iff : readAll earlier (segment :: rest) = .error fault ↔
    FieldFault earlier segment fault ∨ ∃ f, SegmentOf segment f ∧
      f.name ∉ earlier.map Field.name ∧ readAll (earlier ++ [f]) rest = .error fault := by
  rw [readAll]
  cases hread : read segment with
  | error own =>
    have hfault := read_eq_error_iff.mp hread
    constructor
    · rintro ⟨⟩
      exact .inl (.segment hfault)
    · rintro (h | ⟨f, h, -⟩)
      · cases h with
        | segment h => rw [← hread, read_eq_error_iff.mpr h]
        | duplicate h => rw [read_eq_ok_iff_segmentOf.mpr h] at hread; cases hread
      · rw [read_eq_ok_iff_segmentOf.mpr h] at hread
        cases hread
  | ok f =>
    have hf := read_eq_ok_iff_segmentOf.mp hread
    have hfault : FieldFault earlier segment fault ↔
        f.name ∈ earlier.map Field.name ∧ fault = .duplicateField f.name := by
      constructor
      · rintro (h | ⟨h, htaken⟩)
        · rw [read_eq_error_iff.mpr h] at hread
          cases hread
        · rw [read_eq_ok_iff_segmentOf.mpr h] at hread
          cases hread
          exact ⟨htaken, rfl⟩
      · rintro ⟨htaken, rfl⟩
        exact .duplicate hf htaken
    have hnext : (∃ g, SegmentOf segment g ∧ g.name ∉ earlier.map Field.name ∧
        readAll (earlier ++ [g]) rest = .error fault) ↔ f.name ∉ earlier.map Field.name ∧
          readAll (earlier ++ [f]) rest = .error fault := by
      simp only [← read_eq_ok_iff_segmentOf, hread, Except.ok.injEq, exists_eq_left']
    rw [hfault, hnext]
    by_cases htaken : f.name ∈ earlier.map Field.name
    · simp [htaken, eq_comm]
    · simp only [htaken, if_false, false_and, not_false_eq_true, true_and, false_or]
      cases readAll (earlier ++ [f]) rest <;> simp

/-- Segments are refused for the first one that is at fault. -/
theorem readAll_eq_error_iff : readAll earlier segments = .error fault ↔
    ∃ before segment after fields, segments = before ++ segment :: after ∧
      readAll earlier before = .ok fields ∧ FieldFault (earlier ++ fields) segment fault := by
  induction segments generalizing earlier with
  | nil => simp [readAll]
  | cons segment rest ih =>
    rw [readAll_cons_eq_error_iff]
    constructor
    · rintro (h | ⟨f, hf, hfree, hrest⟩)
      · exact ⟨[], segment, rest, [], rfl, rfl, by rwa [List.append_nil]⟩
      · obtain ⟨before, bad, after, fields, rfl, hbefore, hfault⟩ := ih.mp hrest
        refine ⟨segment :: before, bad, after, f :: fields, rfl, ?_, ?_⟩
        · exact readAll_cons_eq_ok_iff.mpr
            ⟨f, fields, rfl, read_eq_ok_iff_segmentOf.mpr hf, hfree, hbefore⟩
        · rwa [List.append_assoc] at hfault
    · rintro ⟨before, bad, after, fields, hsegments, hbefore, hfault⟩
      cases before with
      | nil =>
        cases hsegments
        cases hbefore
        rw [List.append_nil] at hfault
        exact .inl hfault
      | cons first before =>
        cases hsegments
        obtain ⟨f, others, rfl, hf, hfree, hothers⟩ := readAll_cons_eq_ok_iff.mp hbefore
        refine .inr ⟨f, read_eq_ok_iff_segmentOf.mp hf, hfree, ih.mpr ?_⟩
        exact ⟨before, bad, after, others, rfl, hothers, by rwa [List.append_assoc]⟩

end Field

namespace Variant

variable {entry : String} {name rest : List Char} {v : Variant} {fault : Fault}

theorem read_of_hasParts (h : HasParts entry.toList name rest) : read entry =
    if name = [] then .error .emptyVariantName
    else if isName name = false then .error (.badVariantName (.ofList name))
    else (Field.readAll [] (pieces rest)).map (⟨.ofList name, ·⟩) := by
  obtain ⟨before, after, hentry, hcolon, rfl, rfl⟩ := h
  rw [read, hentry, cut?_append hcolon]
  cases hread : Field.readAll [] (pieces (trim after)) <;> simp only [hread, Except.map]

theorem read_eq_ok_iff_entryOf : read entry = .ok v ↔ EntryOf entry.toList v := by
  constructor
  · intro h
    obtain ⟨before, after, hcut, hname, hv, hfields, hnodup⟩ := read_eq_ok_iff.mp h
    obtain ⟨hcolon, hentry⟩ := eq_append_of_cut? hcut
    refine ⟨isName_of_read h, pieces (trim after), ?_, pieces_ne_nil _, ?_, ?_, hnodup⟩
    · refine ⟨before, after, hentry, hcolon, ?_, (joinPieces_pieces _).symm⟩
      rw [hv, String.toList_ofList]
    · exact fun p hp => not_infix_of_mem_pieces hp
    · exact Field.map_read_eq_iff_forall₂.mp hfields
  · rintro ⟨hname, segments, hparts, hne, hwhole, hsegments⟩
    rw [read_of_hasParts hparts, if_neg (ne_nil_of_isName hname), hname, if_neg (by simp),
      pieces_joinPieces hne hwhole, Field.readAll_eq_ok_iff_segmentsOf.mpr hsegments]
    simp [Except.map]

theorem read_eq_error_iff : read entry = .error fault ↔ EntryFault entry.toList fault := by
  constructor
  · intro h
    rcases hasParts_or entry.toList with hcolon | ⟨name, rest, hparts⟩
    · rw [read, cut?_eq_none_iff.mpr hcolon] at h
      cases h
      exact .noColon hcolon
    · rw [read_of_hasParts hparts] at h
      split_ifs at h with hempty hname
      · cases h
        exact .emptyName (hempty ▸ hparts)
      · cases h
        exact .badName hparts hempty hname
      · cases hread : Field.readAll [] (pieces rest) with
        | ok fields => simp [hread, Except.map] at h
        | error own =>
          rw [hread] at h
          cases h
          obtain ⟨before, segment, after, fields, hpieces, hbefore, hfault⟩ :=
            Field.readAll_eq_error_iff.mp hread
          rw [← joinPieces_pieces rest, hpieces] at hparts
          refine .field hparts (by simpa using hname) ?_
            (Field.readAll_eq_ok_iff_segmentsOf.mp hbefore) hfault
          exact fun p hp => not_infix_of_mem_pieces (hpieces ▸ hp)
  · intro h
    cases h with
    | noColon h => rw [read, cut?_eq_none_iff.mpr h]
    | emptyName h => rw [read_of_hasParts h, if_pos rfl]
    | badName h hne hname => rw [read_of_hasParts h, if_neg hne, if_pos hname]
    | @field name before segment after fields _ h hname hwhole hbefore hfault =>
      have hread : Field.readAll [] (before ++ segment :: after) = .error fault :=
        Field.readAll_eq_error_iff.mpr ⟨before, segment, after, fields, rfl,
          Field.readAll_eq_ok_iff_segmentsOf.mpr hbefore, hfault⟩
      rw [read_of_hasParts h, if_neg (ne_nil_of_isName hname), hname, if_neg (by simp),
        pieces_joinPieces (by simp) hwhole, hread]
      rfl

theorem ofEntry_eq_ok_iff : ofEntry entry = .ok v ↔ read entry = .ok v := by
  rw [ofEntry]
  cases read entry <;> simp

theorem ofEntry_eq_error_iff {r : Rejection} :
    ofEntry entry = .error r ↔ r.entry = entry ∧ read entry = .error r.fault := by
  obtain ⟨quoted, fault⟩ := r
  rw [ofEntry]
  cases read entry <;> simp [eq_comm]

/-- An entry is read as the variant that it names. Any other text is quoted in a rejection, with
the first fault in it from the left. -/
theorem ofEntry_entryOf_or_entryFault (entry : String) :
    (∀ v, ofEntry entry = .ok v ↔ EntryOf entry.toList v) ∧
      ∀ r, ofEntry entry = .error r ↔ r.entry = entry ∧ EntryFault entry.toList r.fault := by
  refine ⟨fun v => ?_, fun r => ?_⟩
  · rw [ofEntry_eq_ok_iff, read_eq_ok_iff_entryOf]
  · rw [ofEntry_eq_error_iff, read_eq_error_iff]

/-- Of the faults of a segment, the one in its name is told first. -/
example : ofEntry "A : 1: , a" = .error ⟨"A : 1: , a", .badFieldName "1"⟩ := by decide +kernel

end Variant

end NodeDecl
