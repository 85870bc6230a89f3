import NodeDecl.Grammar.Printer
import NodeDecl.Proofs.Grammar.Reading

/-! # Entries and variants

A variant is plain if an entry can be written for it. Every entry of a plain variant reads as the
variant, whatever white space stands at its margins, and reading makes only plain variants.
-/

namespace NodeDecl
open Text

/-- A field that an entry can hold: its type is trimmed and holds no separator. -/
structure Field.Plain (f : Field) : Prop where
  name : isName f.name.toList = true
  type_ne_nil : f.type.toList ≠ []
  type_trimmed : Trimmed f.type.toList
  type_whole : ¬ separator <:+: f.type.toList

/-- A variant that has an entry: named fields of different names, at least one. -/
structure Variant.Plain (v : Variant) : Prop where
  name : isName v.name.toList = true
  fields_ne_nil : v.fields ≠ []
  fields : ∀ f ∈ v.fields, f.Plain
  nodup : (v.fields.map Field.name).Nodup

/-- Margins of white space. -/
structure Margin.Blank (m : Margin) : Prop where
  before : AllBlank m.before
  after : AllBlank m.after
  inner : AllBlank m.inner

instance (m : Margin) : Decidable m.Blank :=
  decidable_of_iff (AllBlank m.before ∧ AllBlank m.after ∧ AllBlank m.inner)
    ⟨fun ⟨h, h', h''⟩ => ⟨h, h', h''⟩, fun ⟨h, h', h''⟩ => ⟨h, h', h''⟩⟩

theorem Margin.blank_ofField : Margin.ofField.Blank where
  before := .nil
  after := .nil
  inner := by decide

theorem Margin.blank_ofVariant : Margin.ofVariant.Blank where
  before := .nil
  after := by decide
  inner := by decide

/-- A label is cut at its colon, which is the first one. -/
theorem Margin.cut?_label {m : Margin} (hm : m.Blank) {name : String}
    (hname : isName name.toList = true) (rest : List Char) :
    cut? ':' (m.label name ++ rest) =
      some (m.before ++ name.toList ++ m.after, m.inner ++ rest) := by
  have hbefore := hm.before.not_mem (c := ':') (by decide)
  have hafter := hm.after.not_mem (c := ':') (by decide)
  have hcolon := not_mem_of_isName hname (c := ':') (by decide)
  have hlabel : m.label name ++ rest =
      (m.before ++ name.toList ++ m.after) ++ ':' :: (m.inner ++ rest) := by
    simp [label]
  rw [hlabel, cut?_append]
  simp [hbefore, hafter, hcolon]

theorem Margin.trim_label {m : Margin} (hm : m.Blank) {name : String}
    (hname : isName name.toList = true) :
    trim (m.before ++ name.toList ++ m.after) = name.toList :=
  trim_append hm.before (trimmed_of_isName hname) hm.after

theorem Field.read_segment {m : Margin} (hm : m.Blank) {f : Field} (hf : f.Plain) :
    Field.read (f.segment m) = .ok f := by
  rw [Field.read_eq_ok_iff]
  have htype : trim (m.inner ++ f.type.toList) = f.type.toList := by
    simpa using trim_append hm.inner hf.type_trimmed .nil
  refine ⟨_, _, m.cut?_label hm hf.name f.type.toList, ?_, ?_, ?_⟩
  · rw [m.trim_label hm hf.name]
    exact hf.name
  · rw [htype]
    exact hf.type_ne_nil
  · rw [m.trim_label hm hf.name, htype, String.ofList_toList, String.ofList_toList]

/-- No separator lies in a segment: a type may end with a comma, but no space follows it there. -/
theorem Field.not_separator_infix_segment {m : Margin} (hm : m.Blank) {f : Field} (hf : f.Plain) :
    ¬ separator <:+: f.segment m := by
  have hbefore := hm.before.not_mem (c := ',') (by decide)
  have hafter := hm.after.not_mem (c := ',') (by decide)
  have hinner := hm.inner.not_mem (c := ',') (by decide)
  have hname := not_mem_of_isName hf.name (c := ',') (by decide)
  apply not_separator_infix_append _ hf.type_whole
  simp [Margin.label, hbefore, hafter, hinner, hname]

theorem Field.getLast?_segment (m : Margin) {f : Field} (hf : f.Plain) :
    ∀ c ∈ (f.segment m).getLast?, isBlank c = false := by
  intro c hc
  rw [segment, List.getLast?_append, List.getLast?_eq_some_getLast hf.type_ne_nil,
    Option.some_or, ← List.getLast?_eq_some_getLast hf.type_ne_nil] at hc
  exact hf.type_trimmed.2 c hc

/-- The segments of the fields of an entry. -/
theorem mem_zipWith_segment {fields : List Field} {ms : List Margin} {p : List Char}
    (hp : p ∈ List.zipWith Field.segment ms fields) :
    ∃ m ∈ ms, ∃ f ∈ fields, p = f.segment m := by
  induction fields generalizing ms with
  | nil => cases ms <;> cases hp
  | cons f fields ih =>
    cases ms with
    | nil => cases hp
    | cons m ms =>
      rcases List.mem_cons.mp hp with rfl | hp
      · exact ⟨m, List.mem_cons_self, f, List.mem_cons_self, rfl⟩
      · obtain ⟨m', hm', f', hf', rfl⟩ := ih hp
        exact ⟨m', List.mem_cons_of_mem _ hm', f', List.mem_cons_of_mem _ hf', rfl⟩

theorem map_read_segments {fields : List Field} (hf : ∀ f ∈ fields, f.Plain) {ms : List Margin}
    (hm : ∀ m ∈ ms, m.Blank) (hlength : ms.length = fields.length) :
    (List.zipWith Field.segment ms fields).map Field.read = fields.map .ok := by
  induction fields generalizing ms with
  | nil => cases ms <;> rfl
  | cons f fields ih =>
    cases ms with
    | nil => cases hlength
    | cons m ms =>
      rw [List.zipWith_cons_cons, List.map_cons, List.map_cons,
        Field.read_segment (hm m List.mem_cons_self) (hf f List.mem_cons_self),
        ih (fun g hg => hf g (List.mem_cons_of_mem _ hg))
          (fun x hx => hm x (List.mem_cons_of_mem _ hx)) (Nat.succ.inj hlength)]

/-- The field list is trimmed as a whole before it is cut: what is lost is the white space after
the colon, before the first name, and at the end. -/
theorem trim_fieldList {x m : Margin} (hx : AllBlank x.inner) (hm : m.Blank) {f : Field}
    {fields : List Field} (hf : ∀ g ∈ f :: fields, g.Plain) (ms : List Margin)
    {ending : List Char} (hending : AllBlank ending) :
    trim (x.inner ++ (joinPieces (List.zipWith Field.segment (m :: ms) (f :: fields)) ++ ending)) =
      joinPieces (List.zipWith Field.segment (⟨[], m.after, m.inner⟩ :: ms) (f :: fields)) := by
  have hsplit : joinPieces (List.zipWith Field.segment (m :: ms) (f :: fields)) = m.before ++
      joinPieces (List.zipWith Field.segment (⟨[], m.after, m.inner⟩ :: ms) (f :: fields)) := by
    rw [List.zipWith_cons_cons, List.zipWith_cons_cons, ← joinPieces_append_cons]
    simp [Field.segment, Margin.label]
  have hblank : AllBlank (x.inner ++ m.before) := fun c hc =>
    (List.mem_append.mp hc).elim (hx c) (hm.before c)
  rw [hsplit, List.append_assoc, ← List.append_assoc x.inner, ← List.append_assoc]
  refine trim_append hblank ⟨?_, ?_⟩ hending
  · intro c hc
    have hname := (hf f List.mem_cons_self).name
    rw [List.zipWith_cons_cons, Field.segment, Margin.label, List.nil_append, List.append_assoc,
      List.append_assoc, joinPieces_append_cons] at hc
    apply (trimmed_of_isName hname).1
    cases hn : f.name.toList with
    | nil => exact absurd hn (ne_nil_of_isName hname)
    | cons d s => rw [hn] at hc; exact hc
  · intro c hc
    have hne : ∀ p ∈ List.zipWith Field.segment (⟨[], m.after, m.inner⟩ :: ms) (f :: fields),
        p ≠ [] := by
      rintro _ hp rfl
      obtain ⟨m', _, g, hg, h⟩ := mem_zipWith_segment hp
      exact (hf g hg).type_ne_nil (List.append_eq_nil_iff.mp h.symm).2
    obtain ⟨p, hp, hlast⟩ := exists_getLast?_of_joinPieces hne hc
    obtain ⟨m', _, g, hg, rfl⟩ := mem_zipWith_segment hp
    exact Field.getLast?_segment m' (hf g hg) c hlast

theorem Variant.read_entryWith {v : Variant} (hv : v.Plain) {m : Margin} (hm : m.Blank)
    {ms : List Margin} (hms : ∀ x ∈ ms, x.Blank) (hlength : ms.length = v.fields.length)
    {ending : List Char} (hending : AllBlank ending) :
    Variant.read (.ofList (v.entryWith m ms ending)) = .ok v := by
  rw [Variant.read_eq_ok_iff, String.toList_ofList, entryWith, List.append_assoc]
  refine ⟨_, _, m.cut?_label hm hv.name _, ?_, ?_, ?_, hv.nodup⟩
  · rw [m.trim_label hm hv.name]
    exact hv.name
  · rw [m.trim_label hm hv.name, String.ofList_toList]
  · have hfields := hv.fields
    cases hcases : v.fields with
    | nil => exact absurd hcases hv.fields_ne_nil
    | cons f fields =>
      rw [hcases] at hfields hlength
      cases ms with
      | nil => cases hlength
      | cons x ms =>
        have hx := hms x List.mem_cons_self
        have hall : ∀ y ∈ (⟨[], x.after, x.inner⟩ : Margin) :: ms, y.Blank := by
          intro y hy
          rcases List.mem_cons.mp hy with rfl | hy
          · exact ⟨.nil, hx.after, hx.inner⟩
          · exact hms y (List.mem_cons_of_mem _ hy)
        rw [trim_fieldList hm.inner hx hfields ms hending, pieces_joinPieces]
        · exact map_read_segments hfields hall hlength
        · exact List.cons_ne_nil _ _
        · intro p hp
          obtain ⟨y, hy, g, hg, rfl⟩ := mem_zipWith_segment hp
          exact Field.not_separator_infix_segment (hall y hy) (hfields g hg)

theorem Variant.plain_of_read {entry : String} {v : Variant} (h : Variant.read entry = .ok v) :
    v.Plain := by
  obtain ⟨before, after, _, _, _, hfields, hnodup⟩ := Variant.read_eq_ok_iff.mp h
  refine ⟨Variant.isName_of_read h, fun hempty => ?_, fun f hf => ?_, hnodup⟩
  · rw [hempty] at hfields
    exact pieces_ne_nil _ (List.map_eq_nil_iff.mp hfields)
  · obtain ⟨piece, hread, hwhole, _⟩ := Variant.exists_piece_of_read h hf
    obtain ⟨hne, htrimmed, hpart⟩ := Field.type_of_read hread
    exact ⟨Field.isName_of_read hread, hne, htrimmed, fun hs => hwhole (hs.trans hpart)⟩

/-- Reading undoes writing with any margins, and writing undoes reading. -/
theorem Variant.read_entryWith_and_read_entry :
    (∀ (v : Variant) (m : Margin) (ms : List Margin) (ending : List Char), v.Plain → m.Blank →
      (∀ x ∈ ms, x.Blank) → ms.length = v.fields.length → AllBlank ending →
      Variant.read (.ofList (v.entryWith m ms ending)) = .ok v) ∧
    ∀ (entry : String) (v : Variant), Variant.read entry = .ok v →
      v.Plain ∧ Variant.read v.entry = .ok v := by
  refine ⟨fun v m ms ending hv hm hms hlength hending =>
    read_entryWith hv hm hms hlength hending, fun entry v h => ?_⟩
  have hv := plain_of_read h
  refine ⟨hv, read_entryWith hv Margin.blank_ofVariant ?_ (by simp) .nil⟩
  intro x hx
  obtain ⟨_, _, rfl⟩ := List.mem_map.mp hx
  exact Margin.blank_ofField

/-- A variant whose types begin with a colon and end with a comma. -/
def edgeVariant : Variant := ⟨"Edge", [⟨"from", ":,x ,"⟩, ⟨"to", "Map<u8,\tu8>:"⟩]⟩

theorem plain_edgeVariant : edgeVariant.Plain where
  name := by decide
  fields_ne_nil := by decide
  fields := by
    simp only [edgeVariant, List.forall_mem_cons]
    refine ⟨⟨by decide, by decide, ?_, ?_⟩, ⟨by decide, by decide, ?_, ?_⟩, fun _ h => by cases h⟩
    · constructor <;> simp [isBlank]
    · simp [List.infix_cons_iff]
    · constructor <;> simp [isBlank]
    · simp [List.infix_cons_iff]
  nodup := by decide

/-- An entry with wide spaces, tabs and line feeds at its margins. -/
theorem Variant.read_entryWith_edgeVariant :
    Variant.read "\t Edge\u3000:from\n:\t:,x ,, \r to:Map<u8,\tu8>: \u00a0" = .ok edgeVariant ∧
      Variant.read edgeVariant.entry = .ok edgeVariant := by
  have h := Variant.read_entryWith_and_read_entry
  have htext : edgeVariant.entryWith ⟨['\t', ' '], ['\u3000'], []⟩
      [⟨[], ['\n'], ['\t']⟩, ⟨['\r', ' '], [], []⟩] [' ', '\u00a0'] =
        "\t Edge\u3000:from\n:\t:,x ,, \r to:Map<u8,\tu8>: \u00a0".toList := by decide
  have hread := h.1 edgeVariant ⟨['\t', ' '], ['\u3000'], []⟩
    [⟨[], ['\n'], ['\t']⟩, ⟨['\r', ' '], [], []⟩] [' ', '\u00a0'] plain_edgeVariant
    (by decide) (by decide) rfl (by decide)
  rw [htext, String.ofList_toList] at hread
  exact ⟨hread, (h.2 _ _ hread).2⟩

end NodeDecl
