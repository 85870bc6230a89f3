import Mathlib.Data.List.Forall2
import NodeDecl.Proofs.Declaration.Rendering

/-! # Decided types

A type is written as it is declared, unless it is the base type, or the base type with a star where
the target spells an indirect type otherwise. What is written is never the base type, and to decide
a written type once more changes nothing. So the declarations of a grammar stay the same when its
types are replaced by what Zig, or the target itself, writes for them.
-/

namespace NodeDecl

namespace Target

variable {t t' : Target} {base type : String}

theorem indirect_ne (t : Target) (base : String) : t.indirect base ≠ base := by
  intro h
  have hlength := congrArg String.length h
  cases t with
  | zig => simp [indirect] at hlength
  | rust =>
    have hbox : "Box<".length = 4 := rfl
    simp only [indirect, String.length_append] at hlength
    omega

theorem starred_ne (base : String) : "*" ++ base ≠ base := indirect_ne zig base

/-- A box is not spelled with a star. -/
theorem indirect_rust_ne (base : String) : rust.indirect base ≠ "*" ++ base := by
  intro h
  have hhead := congrArg (fun s => s.toList.head?) h
  simp [indirect] at hhead

theorem respelled?_eq_some_iff {written : String} : t.respelled? type base = some written ↔
    t = rust ∧ type = "*" ++ base ∧ written = t.indirect base := by
  cases t with
  | zig => simp [respelled?]
  | rust => simp [respelled?, eq_comm]

/-- The base type becomes indirect, its star form is spelled anew for Rust, and any other type is
kept. -/
theorem resolve_cases (t : Target) (base type : String) :
    (type = base ∧ t.resolve base type = (t.indirect base, true)) ∨
    (t = rust ∧ type = "*" ++ base ∧ t.resolve base type = (t.indirect base, false)) ∨
    (type ≠ base ∧ (t = rust → type ≠ "*" ++ base) ∧ t.resolve base type = (type, false)) := by
  unfold resolve
  by_cases hbase : type = base
  · exact .inl ⟨hbase, if_pos hbase⟩
  · rw [if_neg hbase]
    cases hwritten : t.respelled? type base with
    | some written =>
      obtain ⟨ht, htype, rfl⟩ := respelled?_eq_some_iff.mp hwritten
      exact .inr (.inl ⟨ht, htype, rfl⟩)
    | none =>
      refine .inr (.inr ⟨hbase, fun ht htype => ?_, rfl⟩)
      rw [respelled?_eq_some_iff.mpr ⟨ht, htype, rfl⟩] at hwritten
      cases hwritten

theorem resolve_snd_iff : (t.resolve base type).2 = true ↔ type = base := by
  rcases resolve_cases t base type with ⟨htype, h⟩ | ⟨-, htype, h⟩ | ⟨htype, -, h⟩
  · rw [h]
    exact ⟨fun _ => htype, fun _ => rfl⟩
  · rw [h, htype]
    exact ⟨nofun, fun he => absurd he (starred_ne base)⟩
  · rw [h]
    exact ⟨nofun, fun he => absurd he htype⟩

theorem resolve_ne_base (t : Target) (base type : String) : (t.resolve base type).1 ≠ base := by
  rcases resolve_cases t base type with ⟨-, h⟩ | ⟨-, -, h⟩ | ⟨htype, -, h⟩
  · rw [h]
    exact indirect_ne t base
  · rw [h]
    exact indirect_ne t base
  · rw [h]
    exact htype

/-- Only the base type and, for Rust, its star form are not written as they are declared. -/
theorem resolve_eq_self_iff : (t.resolve base type).1 = type ↔
    type ≠ base ∧ (t = rust → type ≠ "*" ++ base) := by
  rcases resolve_cases t base type with ⟨htype, h⟩ | ⟨rfl, htype, h⟩ | ⟨htype, hstar, h⟩
  · rw [h, htype]
    exact ⟨fun he => absurd he (indirect_ne t base), fun hne => absurd rfl hne.1⟩
  · rw [h, htype]
    exact ⟨fun he => absurd he (indirect_rust_ne base), fun hne => absurd rfl (hne.2 rfl)⟩
  · rw [h]
    exact ⟨fun _ => ⟨htype, hstar⟩, fun _ => rfl⟩

/-- What is written as the indirect base type: the base type, its star form, and that very text. -/
theorem resolve_eq_indirect_iff : (t.resolve base type).1 = t.indirect base ↔
    type = base ∨ type = "*" ++ base ∨ type = t.indirect base := by
  rcases resolve_cases t base type with ⟨htype, h⟩ | ⟨-, htype, h⟩ | ⟨htype, hstar, h⟩
  · rw [h]
    exact ⟨fun _ => .inl htype, fun _ => rfl⟩
  · rw [h]
    exact ⟨fun _ => .inr (.inl htype), fun _ => rfl⟩
  · rw [h, or_iff_right htype]
    cases t with
    | zig => exact (or_self_iff).symm
    | rust => exact (or_iff_right (hstar rfl)).symm

/-- To decide a type for Zig, or for the same target, before it is decided changes nothing. -/
theorem resolve_resolve (h : t' = zig ∨ t' = t) (base type : String) :
    (t.resolve base (t'.resolve base type).1).1 = (t.resolve base type).1 := by
  have hindirect : (t.resolve base (t'.indirect base)).1 = t.indirect base := by
    rw [resolve_eq_indirect_iff]
    rcases h with rfl | rfl
    · exact .inr (.inl rfl)
    · exact .inr (.inr rfl)
  rcases resolve_cases t' base type with ⟨htype, hw⟩ | ⟨-, htype, hw⟩ | ⟨-, -, hw⟩
  · rw [hw, hindirect]
    exact (resolve_eq_indirect_iff.mpr (.inl htype)).symm
  · rw [hw, hindirect]
    exact (resolve_eq_indirect_iff.mpr (.inr (.inl htype))).symm
  · rw [hw]

end Target

/-- How a member stands to the field that it is made of. -/
structure Field.Renders (t : Target) (base : String) (f : Field) (m : Member) : Prop where
  name : m.name = f.name
  ne_base : m.type ≠ base
  boxed : m.boxed = true ↔ f.type = base
  indirect : f.type = base → m.type = t.indirect base
  kept : m.type ≠ f.type → f.type = base ∨ t = .rust ∧ f.type = "*" ++ base

/-- How a node stands to the variant that it is made of. -/
structure Variant.Renders (t : Target) (base : String) (v : Variant) (n : Node) : Prop where
  name : n.name = v.name
  tag : n.tag = v.tag
  members : List.Forall₂ (Field.Renders t base) v.fields n.members

theorem Field.renders_ofField (t : Target) (base : String) (f : Field) :
    f.Renders t base (Member.ofField t base f) where
  name := rfl
  ne_base := Target.resolve_ne_base t base f.type
  boxed := Target.resolve_snd_iff
  indirect h := Target.resolve_eq_indirect_iff.mpr (.inl h)
  kept h := by
    by_contra hother
    rw [not_or, not_and] at hother
    exact h (Target.resolve_eq_self_iff.mpr hother)

theorem Variant.renders_ofVariant (t : Target) (base : String) (v : Variant) :
    v.Renders t base (Node.ofVariant t base v) where
  name := rfl
  tag := rfl
  members := List.forall₂_map_right_iff.mpr
    (List.forall₂_same.mpr fun f _ => Field.renders_ofField t base f)

/-- A layout without the types of its members. -/
def Layout.untyped (l : Layout) : Layout :=
  { l with nodes := l.nodes.map fun n =>
      { n with members := n.members.map fun m => { m with type := "" } } }

/-- What a layout has besides types does not depend on the target. -/
theorem Layout.untyped_ofGrammar (t t' : Target) (g : Grammar) :
    (Layout.ofGrammar t g).untyped = (Layout.ofGrammar t' g).untyped := by
  have hboxed (type : String) : (t.resolve g.base type).2 = (t'.resolve g.base type).2 := by
    rw [Bool.eq_iff_iff, Target.resolve_snd_iff, Target.resolve_snd_iff]
  simp only [Layout.untyped, Layout.ofGrammar, List.map_map, Function.comp_def, Node.ofVariant,
    Member.ofField, hboxed]

/-- The field whose declared type is what a target writes for it. -/
def Field.resolved (t : Target) (base : String) (f : Field) : Field :=
  ⟨f.name, (t.resolve base f.type).1⟩

/-- The grammar whose declared types are what a target writes for them. -/
def Grammar.resolved (t : Target) (g : Grammar) : Grammar :=
  ⟨g.base, g.variants.map fun v => ⟨v.name, v.fields.map (Field.resolved t g.base)⟩⟩

theorem Outline.ofGrammar_resolved {t : Target} {d : Destination} (h : t = .zig ∨ t = d.target)
    (g : Grammar) : Outline.ofGrammar d (g.resolved t) = Outline.ofGrammar d g := by
  have hpart (f : Field) : Field.part d.target g.base (f.resolved t g.base) =
      f.part d.target g.base := by
    rw [Field.part, Field.part, Field.resolved, Target.resolve_resolve h]
  simp only [Outline.ofGrammar, Grammar.resolved, List.map_map, Function.comp_def, hpart]
  rfl

/-- The file of a grammar is determined by what is written for its fields. -/
theorem SourceFile.ofGrammar_congr {d : Destination} {g g' : Grammar}
    (h : Outline.ofGrammar d g = Outline.ofGrammar d g') :
    SourceFile.ofGrammar d g = SourceFile.ofGrammar d g' := by
  have htext : (ofGrammar d g).text = (ofGrammar d g').text := by
    rw [text_ofGrammar, text_ofGrammar, h]
  have hcount : (ofGrammar d g).typeCount = (ofGrammar d g').typeCount := by
    have hlength := congrArg (fun o => o.structs.length) h
    simp only [Outline.ofGrammar, List.length_map] at hlength
    simp only [ofGrammar, Layout.typeCount, Layout.ofGrammar, List.length_map, hlength]
  rw [mk.injEq]
  exact ⟨rfl, htext, hcount, congrArg Digest.ofText htext⟩

/-- The base type is made indirect everywhere and only once: no member has the base type, and all
other types are taken over, but for the star form, which Rust spells anew. The targets agree in all
but types, and a grammar whose types were decided, for Zig or for the target itself, makes the same
file. -/
theorem Grammar.indirect_once (g : Grammar) :
    (∀ t, (Layout.ofGrammar t g).base = g.base ∧
      List.Forall₂ (Variant.Renders t g.base) g.variants (Layout.ofGrammar t g).nodes) ∧
    (∀ t t', (Layout.ofGrammar t g).untyped = (Layout.ofGrammar t' g).untyped) ∧
    ∀ d, SourceFile.ofGrammar d (g.resolved .zig) = SourceFile.ofGrammar d g ∧
      SourceFile.ofGrammar d (g.resolved d.target) = SourceFile.ofGrammar d g := by
  refine ⟨fun t => ⟨rfl, List.forall₂_map_right_iff.mpr (List.forall₂_same.mpr fun v _ => ?_)⟩,
    fun t t' => Layout.untyped_ofGrammar t t' g, fun d => ⟨?_, ?_⟩⟩
  · exact v.renders_ofVariant t g.base
  · exact SourceFile.ofGrammar_congr (Outline.ofGrammar_resolved (.inl rfl) g)
  · exact SourceFile.ofGrammar_congr (Outline.ofGrammar_resolved (.inr rfl) g)

end NodeDecl
