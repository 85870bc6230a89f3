import NodeDecl.Proofs.Grammar.Entries

/-! # Segments of white space

No field can be read from a segment of white space. It is found in every place but one: the field
list is trimmed before it is cut, so the last segment is lost if it is blank, and with it the space
of the separator before it. The comma stays, and belongs to the type that ends there.
-/

namespace NodeDecl
open Text

variable {a b p segment label rest : List Char} {ps qs segments : List (List Char)}
  {f : Field} {fields : List Field}

theorem HasParts.append_left (ha : AllBlank a) (h : HasParts segment label rest) :
    HasParts (a ++ segment) label rest := by
  obtain ⟨before, after, rfl, hcolon, rfl, rfl⟩ := h
  refine ⟨a ++ before, after, by simp, ?_, trim_append_left ha before, rfl⟩
  rw [List.mem_append, not_or]
  exact ⟨ha.not_mem (by decide), hcolon⟩

theorem HasParts.unique {label' rest' : List Char} (h : HasParts segment label rest)
    (h' : HasParts segment label' rest') : label = label' ∧ rest = rest' := by
  obtain ⟨before, after, rfl, hcolon, rfl, rfl⟩ := h
  obtain ⟨before', after', hs, hcolon', rfl, rfl⟩ := h'
  have hcut := cut?_append hcolon after
  rw [hs, cut?_append hcolon'] at hcut
  cases hcut
  exact ⟨rfl, rfl⟩

theorem SegmentOf.mem_colon (h : SegmentOf segment f) : ':' ∈ segment := by
  obtain ⟨before, after, rfl, -⟩ := h.parts
  simp

theorem SegmentOf.append_left_iff (ha : AllBlank a) :
    SegmentOf (a ++ segment) f ↔ SegmentOf segment f := by
  have hread : Field.read (a ++ segment) = Field.read segment := by
    rcases hasParts_or segment with hcolon | ⟨name, type, hparts⟩
    · have hboth : ':' ∉ a ++ segment := by
        rw [List.mem_append, not_or]
        exact ⟨ha.not_mem (by decide), hcolon⟩
      rw [Field.read_of_not_mem hcolon, Field.read_of_not_mem hboth, trim_append_left ha]
    · rw [Field.read_of_hasParts hparts, Field.read_of_hasParts (hparts.append_left ha)]
  rw [← Field.read_eq_ok_iff_segmentOf, ← Field.read_eq_ok_iff_segmentOf, hread]

theorem SegmentsOf.append_left_iff (ha : AllBlank a) :
    SegmentsOf ((a ++ p) :: ps) fields ↔ SegmentsOf (p :: ps) fields := by
  have heach : List.Forall₂ SegmentOf ((a ++ p) :: ps) fields ↔
      List.Forall₂ SegmentOf (p :: ps) fields := by
    simp only [List.forall₂_cons_left_iff, SegmentOf.append_left_iff ha]
  exact ⟨fun h => ⟨heach.mp h.each, h.nodup⟩, fun h => ⟨heach.mpr h.each, h.nodup⟩⟩

theorem SegmentsOf.mem_colon (h : SegmentsOf ps fields) : ∀ p ∈ ps, ':' ∈ p :=
  ((List.forall₂_and_left _ _).mp (h.each.imp fun _ _ hs => ⟨hs.mem_colon, hs⟩)).1

theorem not_allBlank_of_mem_colon (h : ':' ∈ p) : ¬AllBlank p :=
  fun hp => hp.not_mem (by decide) h

/-- If the last segment is blank, the comma before it is not trimmed off. -/
theorem joinPieces_concat_blank (ps : List (List Char)) (p b : List Char) :
    joinPieces (ps ++ [p, b]) = joinPieces (ps ++ [p ++ [',']]) ++ ' ' :: b := by
  rw [joinPieces_concat_pair, joinPieces_concat_append]
  simp

theorem not_separator_infix_concat (h : ¬ separator <:+: p) : ¬ separator <:+: p ++ [','] := by
  rw [List.infix_concat_iff, not_or]
  refine ⟨fun hs => ?_, h⟩
  obtain ⟨s, hs⟩ := hs
  have hlast := congrArg List.getLast? hs
  simp at hlast

/-- Only the first segment and the white space at the end change when segments are trimmed. -/
theorem exists_trim_joinPieces (hp : ¬AllBlank p)
    (hlast : ∀ c ∈ (joinPieces (p :: ps)).getLast?, isBlank c = false) (hb : AllBlank b) :
    ∃ a q, AllBlank a ∧ p = a ++ q ∧ trim (joinPieces (p :: ps) ++ b) = joinPieces (q :: ps) := by
  obtain ⟨a, ha, hpa, hhead⟩ := trimStart_spec p
  obtain ⟨c, q, hq⟩ : ∃ c q, trimStart p = c :: q := by
    cases hq : trimStart p with
    | cons c q => exact ⟨c, q, rfl⟩
    | nil =>
      rw [hq, List.append_nil] at hpa
      exact absurd (hpa ▸ ha) hp
  rw [hq] at hpa hhead
  rw [hpa, joinPieces_append_cons, joinPieces_cons_cons] at hlast
  refine ⟨a, c :: q, ha, hpa, ?_⟩
  rw [hpa, joinPieces_append_cons, joinPieces_cons_cons]
  refine trim_append ha ⟨hhead, fun d hd => hlast d ?_⟩ hb
  rw [List.getLast?_append, hd, Option.some_or]
  rfl

/-- White space behind joined segments belongs to the last of them, or the comma at their end and
its first space separate it from them. -/
theorem segments_of_append_blank (hqs : qs ≠ []) (hwhole : ∀ q ∈ qs, ¬ separator <:+: q)
    (hb : AllBlank b) (hsegments : segments ≠ []) (hpieces : ∀ p ∈ segments, ¬ separator <:+: p)
    (h : joinPieces segments = joinPieces qs ++ b) :
    (∃ front last, qs = front ++ [last] ∧ segments = front ++ [last ++ b]) ∨
      ∃ front last b', qs = front ++ [last ++ [',']] ∧ b = ' ' :: b' ∧
        segments = front ++ [last, b'] := by
  have hsplit := pieces_joinPieces hsegments hpieces
  obtain ⟨front, last, rfl⟩ := (List.eq_nil_or_concat' qs).resolve_left hqs
  obtain ⟨hfront, hlast⟩ := List.forall_mem_append.mp hwhole
  rw [List.forall_mem_singleton] at hlast
  rw [h] at hsplit
  have hcomma (s : List Char) (hs : s <:+ b) : ',' ∉ s :=
    fun hm => hb.not_mem (by decide) (hs.subset hm)
  by_cases hacross : separator <:+: last ++ b
  · obtain ⟨l, b', rfl, rfl⟩ := exists_of_separator_infix_append hlast
      (hcomma b (List.suffix_refl b)) hacross
    refine .inr ⟨front, l, b', rfl, rfl, ?_⟩
    rw [← hsplit, ← joinPieces_concat_blank, pieces_joinPieces (by simp)]
    refine List.forall_mem_append.mpr ⟨hfront, List.forall_mem_cons.mpr ⟨?_, ?_⟩⟩
    · exact fun hl => hlast (hl.trans (List.prefix_append l [',']).isInfix)
    · exact List.forall_mem_singleton.mpr fun hs =>
        hcomma b' (List.suffix_cons ' ' b') (hs.subset List.mem_cons_self)
  · refine .inl ⟨front, last, rfl, ?_⟩
    rw [← hsplit, ← joinPieces_concat_append, pieces_joinPieces (by simp)]
    exact List.forall_mem_append.mpr ⟨hfront, List.forall_mem_singleton.mpr hacross⟩

namespace Variant

variable {name : String} {v : Variant}

theorem hasParts_entry (hname : isName name.toList = true) (list : List Char) :
    HasParts (name ++ " : " ++ .ofList list).toList name.toList (trim list) := by
  have hspace : AllBlank [' '] := by decide
  refine ⟨name.toList ++ [' '], ' ' :: list, by simp, ?_, ?_, trim_append_left hspace list⟩
  · rw [List.mem_append, not_or]
    exact ⟨not_mem_of_isName hname (by decide), by decide⟩
  · exact trim_append .nil (trimmed_of_isName hname) hspace

/-- A blank segment is accepted in one place: behind all others, if these are fields once a comma
stands behind the last of them. -/
theorem read_blankSegment_eq_ok_iff (hname : isName name.toList = true)
    (hwhole : ∀ p ∈ segments, ¬ separator <:+: p) (hblank : ∃ p ∈ segments, AllBlank p) :
    read (name ++ " : " ++ .ofList (joinPieces segments)) = .ok v ↔ v.name = name ∧
      ∃ front last b, segments = front ++ [last, b] ∧ AllBlank b ∧
        SegmentsOf (front ++ [last ++ [',']]) v.fields := by
  rw [read_eq_ok_iff_entryOf]
  constructor
  · rintro ⟨-, ps, hparts, hne, hpieces, hps⟩
    obtain ⟨hv, hlist⟩ := hparts.unique (hasParts_entry hname _)
    obtain ⟨a, b, ha, hb, hjoin, -⟩ := trim_spec (joinPieces segments)
    obtain ⟨p, ps, rfl⟩ := List.exists_cons_of_ne_nil hne
    have hqs := (SegmentsOf.append_left_iff ha).mpr hps
    have hcolons := hqs.mem_colon
    rw [← hlist, ← joinPieces_append_cons] at hjoin
    have hqswhole : ∀ q ∈ (a ++ p) :: ps, ¬ separator <:+: q := by
      obtain ⟨hp, hrest⟩ := List.forall_mem_cons.mp hpieces
      exact List.forall_mem_cons.mpr
        ⟨not_separator_infix_append (ha.not_mem (by decide)) hp, hrest⟩
    obtain ⟨s, hs, hsblank⟩ := hblank
    rcases segments_of_append_blank (List.cons_ne_nil _ _) hqswhole hb (List.ne_nil_of_mem hs)
      hwhole hjoin with ⟨front, last, hfront, rfl⟩ | ⟨front, last, b', hfront, rfl, rfl⟩
    · rw [hfront, List.forall_mem_append, List.forall_mem_singleton] at hcolons
      refine absurd hsblank (not_allBlank_of_mem_colon ?_)
      rcases List.mem_append.mp hs with hs | hs
      · exact hcolons.1 s hs
      · rw [List.mem_singleton.mp hs]
        exact List.mem_append_left b hcolons.2
    · rw [hfront] at hqs
      exact ⟨String.toList_inj.mp hv, front, last, b', rfl,
        fun c hc => hb c (List.mem_cons_of_mem _ hc), hqs⟩
  · rintro ⟨rfl, front, last, b, rfl, hb, hfields⟩
    obtain ⟨p, ps, hps⟩ := List.exists_cons_of_ne_nil
      (List.append_ne_nil_of_right_ne_nil front (List.cons_ne_nil (last ++ [',']) []))
    have hlast : ∀ c ∈ (joinPieces (p :: ps)).getLast?, isBlank c = false := by
      rw [← hps, joinPieces_concat_append, List.getLast?_concat]
      simp [isBlank]
    have hpieces : ∀ q ∈ p :: ps, ¬ separator <:+: q := by
      obtain ⟨hfront, hpair⟩ := List.forall_mem_append.mp hwhole
      rw [← hps, List.forall_mem_append, List.forall_mem_singleton]
      exact ⟨hfront, not_separator_infix_concat (hpair last List.mem_cons_self)⟩
    rw [hps] at hfields
    have hp := not_allBlank_of_mem_colon (hfields.mem_colon p List.mem_cons_self)
    have htail : AllBlank (' ' :: b) := List.forall_mem_cons.mpr ⟨by decide, hb⟩
    obtain ⟨a, q, ha, rfl, htrim⟩ := exists_trim_joinPieces hp hlast htail
    refine ⟨hname, q :: ps, ?_, List.cons_ne_nil _ _, ?_,
      (SegmentsOf.append_left_iff ha).mp hfields⟩
    · rw [← htrim, ← hps, ← joinPieces_concat_blank]
      exact hasParts_entry hname _
    · obtain ⟨hq, hrest⟩ := List.forall_mem_cons.mp hpieces
      exact List.forall_mem_cons.mpr
        ⟨fun hs => hq (hs.trans (List.suffix_append a q).isInfix), hrest⟩

/-- An entry with a blank segment is rejected, unless this is the last segment and those before it
are fields once a comma stands behind the last of them. -/
theorem ofEntry_blankSegment_iff (hname : isName name.toList = true)
    (hwhole : ∀ p ∈ segments, ¬ separator <:+: p) (hblank : ∃ p ∈ segments, AllBlank p) :
    (∃ r, ofEntry (name ++ " : " ++ .ofList (joinPieces segments)) = .error r) ↔
      ¬∃ front last b fields, segments = front ++ [last, b] ∧ AllBlank b ∧
        SegmentsOf (front ++ [last ++ [',']]) fields := by
  have haccepted : (∃ v, ofEntry (name ++ " : " ++ .ofList (joinPieces segments)) = .ok v) ↔
      ∃ front last b fields, segments = front ++ [last, b] ∧ AllBlank b ∧
        SegmentsOf (front ++ [last ++ [',']]) fields := by
    simp only [ofEntry_eq_ok_iff, read_blankSegment_eq_ok_iff hname hwhole hblank]
    constructor
    · rintro ⟨v, -, front, last, b, h⟩
      exact ⟨front, last, b, v.fields, h⟩
    · rintro ⟨front, last, b, fields, h⟩
      exact ⟨⟨name, fields⟩, rfl, front, last, b, h⟩
  rw [← haccepted]
  cases ofEntry (name ++ " : " ++ .ofList (joinPieces segments)) <;> simp

/-- A tab between two separators. -/
theorem ofEntry_blankSegment_tab : ∃ r, ofEntry "A : a: T, \t, b: U" = .error r := by
  have hrejected : (∃ r, ofEntry ("A" ++ " : " ++ .ofList (joinPieces
      ["a: T".toList, ['\t'], "b: U".toList])) = .error r) ↔ _ :=
    ofEntry_blankSegment_iff (by decide) (by decide) ⟨['\t'], by simp, by decide⟩
  refine hrejected.mpr ?_
  rintro ⟨front, last, b, fields, hsegments, hb, -⟩
  have hlast := congrArg List.getLast? hsegments
  simp only [List.getLast?_append, List.getLast?_cons_cons, List.getLast?_singleton,
    Option.some_or, Option.some.injEq] at hlast
  subst hlast
  exact absurd hb (by decide)

/-- An empty segment behind the last separator is lost, and the comma becomes a part of the type. -/
theorem ofEntry_danglingSeparator : isName "A".toList = true ∧
    (∀ p ∈ ["a: T".toList, []], ¬ separator <:+: p) ∧ AllBlank [] ∧
      ofEntry ("A" ++ " : " ++ .ofList (joinPieces ["a: T".toList, []])) =
        .ok ⟨"A", [⟨"a", "T,"⟩]⟩ := by
  refine ⟨by decide, by decide, by decide, ?_⟩
  decide +kernel

end Variant

end NodeDecl
