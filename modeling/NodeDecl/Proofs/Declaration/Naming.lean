import NodeDecl.Proofs.Declaration.Rendering
import NodeDecl.Proofs.Grammar.Consistency
import NodeDecl.Proofs.Target.Escaping

/-! # Names in declarations

What is promised of the names in a generated file: the parts of a declaration have different
names, so have the declarations and what the head imports, and no name is a reserved word. Reading
a table sees to most of it. What it does not see to is said here exactly: a word and its escaped
form side by side, a base type named like an import, and a type named by a reserved word.
-/

namespace NodeDecl
open Text

/-- The names that every file of declarations imports. -/
def Target.imports : Target → List String
  | zig => ["std", "Token"]
  | rust => ["Box", "Token"]

namespace Outline

def Block.partNames (b : Block) : List String := b.parts.map Prod.fst

/-- The parts of each declaration have different names. -/
def DistinctParts (o : Outline) : Prop := ∀ b ∈ o.structs ++ [o.union], b.partNames.Nodup

/-- The name that a line of the head binds: that of a constant, or the end of an imported path. -/
def boundName? (line : List Char) : Target → Option String
  | .zig => (between? "const ".toList [';'] line).bind fun rest =>
      (cut? ' ' rest).map fun p => .ofList p.1
  | .rust => (between? "use ".toList [';'] line).map fun path =>
      .ofList (path.reverse.takeWhile (· ≠ ':')).reverse

/-- The names that the head binds. -/
def headNames (t : Target) (tokenModule : String) : List String :=
  (headLines t tokenModule).filterMap fun line => boundName? line.toList t

/-- The names of the outermost scope: those of the head and those of the declarations. -/
def topNames (t : Target) (o : Outline) : List String :=
  headNames t o.tokenModule ++ (o.structs.map Block.name ++ [o.union.name])

/-- The names in the declarations, in order: of a struct and its members, of the union, and of its
cases and the structs that they hold. -/
def names (o : Outline) : List String :=
  o.structs.flatMap (fun b => b.name :: b.partNames) ++
    o.union.name :: o.union.parts.flatMap fun p => [p.1, p.2]

theorem boundName?_zig {name : List Char} (h : ' ' ∉ name) (rest : List Char) :
    boundName? ("const ".toList ++ (name ++ ' ' :: rest) ++ [';']) .zig = some (.ofList name) := by
  rw [boundName?, between?_append, Option.bind_some, cut?_append h, Option.map_some]

theorem boundName?_rust {name : List Char} (h : ':' ∉ name) (path : List Char) :
    boundName? ("use ".toList ++ (path ++ ':' :: name) ++ [';']) .rust = some (.ofList name) := by
  have hname : ∀ c ∈ name.reverse, decide (c ≠ ':') = true := fun c hc =>
    decide_eq_true fun he => h (he ▸ List.mem_reverse.mp hc)
  have hpath : (path ++ ':' :: name).reverse = name.reverse ++ ':' :: path.reverse := by simp
  rw [boundName?, between?_append, Option.map_some, hpath, List.takeWhile_append_of_pos hname,
    List.takeWhile_cons_of_neg (by simp), List.append_nil, List.reverse_reverse]

/-- Whatever the module of the token type is called, the head binds the same names. -/
theorem headNames_eq (t : Target) (tokenModule : String) :
    headNames t tokenModule = t.imports := by
  cases t with
  | zig =>
    have hline : ("const Token = @import(\"" ++ tokenModule ++ "\").Token;").toList =
        "const ".toList ++ ("Token".toList ++ ' ' ::
          ("= @import(\"".toList ++ tokenModule.toList ++ "\").Token".toList)) ++ [';'] := by
      simp
    have hstd : boundName? "const std = @import(\"std\");".toList .zig = some "std" := by decide
    have htoken : boundName? ("const Token = @import(\"" ++ tokenModule ++ "\").Token;").toList
        .zig = some "Token" := by
      rw [hline, boundName?_zig (by decide)]
      rfl
    simp only [headNames, headLines, zigHead, List.filterMap_cons, hstd, htoken, List.filterMap_nil,
      Target.imports]
  | rust =>
    have hline : ("use " ++ tokenModule ++ "::Token;").toList =
        "use ".toList ++ ((tokenModule.toList ++ [':']) ++ ':' :: "Token".toList) ++ [';'] := by
      simp
    have hallow : boundName? "#[allow(unused_imports)]".toList .rust = none := by decide
    have hbox : boundName? "use std::boxed::Box;".toList .rust = some "Box" := by decide
    have htoken : boundName? ("use " ++ tokenModule ++ "::Token;").toList .rust =
        some "Token" := by
      rw [hline, boundName?_rust (by decide)]
      rfl
    have hempty : boundName? "".toList .rust = none := by decide
    simp only [headNames, headLines, rustHead, List.filterMap_cons, hallow, hbox, htoken, hempty,
      List.filterMap_nil, Target.imports]

theorem partNames_struct (t : Target) (base : String) (v : Variant) :
    Block.partNames ⟨v.name, v.fields.map (Field.part t base)⟩ =
      (v.fields.map Field.name).map (t.escape ·) := by
  simp only [Block.partNames, List.map_map]
  rfl

theorem partNames_union (d : Destination) (g : Grammar) :
    (ofGrammar d g).union.partNames = (g.variants.map Variant.tag).map (d.target.escape ·) := by
  simp only [Block.partNames, ofGrammar, List.map_map]
  rfl

theorem topNames_ofGrammar (d : Destination) (g : Grammar) :
    (ofGrammar d g).topNames d.target =
      headNames d.target d.tokenModule ++ (g.variants.map Variant.name ++ [g.base]) := by
  simp only [topNames, ofGrammar, List.map_map]
  rfl

end Outline

theorem Target.mem_reservedNames_of_mem_imports {t : Target} {name : String}
    (h : name ∈ t.imports) : name ∈ reservedNames := by
  have hall : ∀ n ∈ t.imports, n ∈ reservedNames := by
    cases t <;> decide
  exact hall name h

theorem Target.nodup_imports (t : Target) : t.imports.Nodup := by
  cases t <;> decide

theorem Variant.Plain.nodup_escaped_iff {v : Variant} (hv : v.Plain) (t : Target) (base : String) :
    (Outline.Block.partNames ⟨v.name, v.fields.map (Field.part t base)⟩).Nodup ↔
      ¬t.Merges (v.fields.map Field.name) := by
  rw [Outline.partNames_struct]
  refine Target.nodup_map_escape_iff (fun name hname => ?_) hv.nodup
  obtain ⟨f, hf, rfl⟩ := List.mem_map.mp hname
  exact isNameChar_of_isName (hv.fields f hf).name

theorem Grammar.Consistent.nodup_cases_iff {g : Grammar} (hg : g.Consistent) (d : Destination) :
    (Outline.ofGrammar d g).union.partNames.Nodup ↔
      ¬d.target.Merges (g.variants.map Variant.tag) := by
  rw [Outline.partNames_union]
  refine Target.nodup_map_escape_iff (fun name hname => ?_) hg.nodup_tags
  obtain ⟨v, hv, rfl⟩ := List.mem_map.mp hname
  exact Variant.isNameChar_of_mem_tag (hg.plain v hv).name

/-- The members of each struct and the cases of the union are named apart, unless a word that is
escaped by an underscore stands beside its escaped form. Where no word is escaped so, they always
are. -/
theorem SourceFile.distinctParts_iff {d : Destination} {base : String} {entries : List String}
    {g : Grammar} (hg : Grammar.read base entries = .ok g) :
    (SourceFile.ofGrammar d g).text = (Outline.ofGrammar d g).text d.target ∧
      ((Outline.ofGrammar d g).DistinctParts ↔
        (∀ v ∈ g.variants, ¬d.target.Merges (v.fields.map Field.name)) ∧
          ¬d.target.Merges (g.variants.map Variant.tag)) ∧
      (d.target = .zig → (Outline.ofGrammar d g).DistinctParts) := by
  have hg := Grammar.consistent_of_read hg
  have hparts : (Outline.ofGrammar d g).DistinctParts ↔
      (∀ v ∈ g.variants, ¬d.target.Merges (v.fields.map Field.name)) ∧
        ¬d.target.Merges (g.variants.map Variant.tag) := by
    rw [Outline.DistinctParts, List.forall_mem_append, List.forall_mem_singleton,
      hg.nodup_cases_iff d]
    refine and_congr_left' ?_
    rw [Outline.ofGrammar, List.forall_mem_map]
    exact forall₂_congr fun v hv => (hg.plain v hv).nodup_escaped_iff d.target g.base
  refine ⟨text_ofGrammar d g, hparts, fun hzig => hparts.mpr ?_⟩
  rw [hzig]
  exact ⟨fun v _ => Target.not_merges_zig _, Target.not_merges_zig _⟩

/-- A struct with members that are reserved words, one of them escaped by an underscore. -/
def matchGrammar : Grammar :=
  ⟨"Expr", [⟨"Match", [⟨"self", "Expr"⟩, ⟨"type", "Token"⟩, ⟨"self__", "u8"⟩]⟩]⟩

theorem SourceFile.distinctParts_matchGrammar :
    Grammar.read "Expr" ["Match : self: Expr, type: Token, self__: u8"] = .ok matchGrammar ∧
      (Outline.ofGrammar (.standard .rust) matchGrammar).DistinctParts := by
  have hg : Grammar.read "Expr" ["Match : self: Expr, type: Token, self__: u8"] =
    .ok matchGrammar := rfl
  have h := SourceFile.distinctParts_iff (d := .standard .rust) hg
  exact ⟨hg, h.2.1.mpr (by decide)⟩

/-- Accepted tables whose members or cases are named alike in Rust: the escaped form of a word is
itself a name that may be given. -/
theorem SourceFile.not_distinctParts_self :
    (∃ g, Grammar.read "E" ["A : self: T, self_: U"] = .ok g ∧
      (SourceFile.ofGrammar (.standard .rust) g).text =
        (Outline.ofGrammar (.standard .rust) g).text .rust ∧
      (Outline.ofGrammar (.standard .rust) g).structs.map Outline.Block.partNames =
        [["self_", "self_"]] ∧
      ¬(Outline.ofGrammar (.standard .rust) g).DistinctParts) ∧
    ∃ g, Grammar.read "E" ["SELF : a: T", "SELF_ : b: U"] = .ok g ∧
      (SourceFile.ofGrammar (.standard .rust) g).text =
        (Outline.ofGrammar (.standard .rust) g).text .rust ∧
      (Outline.ofGrammar (.standard .rust) g).union.partNames = ["self_", "self_"] ∧
      ¬(Outline.ofGrammar (.standard .rust) g).DistinctParts := by
  refine ⟨⟨⟨"E", [⟨"A", [⟨"self", "T"⟩, ⟨"self_", "U"⟩]⟩]⟩, rfl, text_ofGrammar _ _, rfl,
      fun h => ?_⟩,
    ⟨⟨"E", [⟨"SELF", [⟨"a", "T"⟩]⟩, ⟨"SELF_", [⟨"b", "U"⟩]⟩]⟩, rfl, text_ofGrammar _ _, rfl,
      fun h => ?_⟩⟩
  · exact absurd (h _ List.mem_cons_self) (by decide)
  · exact absurd (h _ (List.mem_append_right _ List.mem_cons_self)) (by decide)

/-- The declarations are named apart from each other and from what the head imports, unless the
base type is named like an import: only the names of variants are kept from that. -/
theorem SourceFile.nodup_topNames_iff {d : Destination} {base : String} {entries : List String}
    {g : Grammar} (hg : Grammar.read base entries = .ok g) :
    (SourceFile.ofGrammar d g).text = (Outline.ofGrammar d g).text d.target ∧
      Outline.headNames d.target d.tokenModule = d.target.imports ∧
      (((Outline.ofGrammar d g).topNames d.target).Nodup ↔ g.base ∉ d.target.imports) := by
  have hg := Grammar.consistent_of_read hg
  refine ⟨text_ofGrammar d g, Outline.headNames_eq _ _, ?_⟩
  rw [Outline.topNames_ofGrammar, Outline.headNames_eq, List.nodup_append']
  constructor
  · rintro ⟨-, -, hdisjoint⟩ hbase
    exact hdisjoint hbase (List.mem_append_right _ List.mem_cons_self)
  · intro hbase
    refine ⟨d.target.nodup_imports, List.nodup_append'.mpr
      ⟨hg.nodup_names, List.nodup_singleton _, ?_⟩, ?_⟩
    · intro name hname hmem
      obtain ⟨v, hv, rfl⟩ := List.mem_map.mp hname
      exact (hg.free v hv).1 (List.mem_singleton.mp hmem)
    · intro name hname hmem
      rcases List.mem_append.mp hmem with hmem | hmem
      · obtain ⟨v, hv, rfl⟩ := List.mem_map.mp hmem
        exact (hg.free v hv).2 (Target.mem_reservedNames_of_mem_imports hname)
      · exact hbase (List.mem_singleton.mp hmem ▸ hname)

theorem SourceFile.nodup_topNames_box :
    ∃ g, Grammar.read "Box" ["Boxes : item: Box"] = .ok g ∧
      ((Outline.ofGrammar (.standard .zig) g).topNames .zig).Nodup := by
  have hg : Grammar.read "Box" ["Boxes : item: Box"] =
    .ok ⟨"Box", [⟨"Boxes", [⟨"item", "Box"⟩]⟩]⟩ := rfl
  exact ⟨_, hg, (SourceFile.nodup_topNames_iff (d := .standard .zig) hg).2.2.mpr (by decide)⟩

/-- An accepted table whose base type takes the name of the token type, for either target. -/
theorem SourceFile.not_nodup_topNames_token :
    ∃ g, Grammar.read "Token" ["A : a: T"] = .ok g ∧
      ∀ t, (SourceFile.ofGrammar (.standard t) g).text =
          (Outline.ofGrammar (.standard t) g).text t ∧
        ¬((Outline.ofGrammar (.standard t) g).topNames t).Nodup := by
  refine ⟨⟨"Token", [⟨"A", [⟨"a", "T"⟩]⟩]⟩, rfl, fun t => ⟨text_ofGrammar _ _, ?_⟩⟩
  cases t <;> decide

namespace Outline

/-- A name stands for a declaration, for a part of one, or for the struct that a case holds. -/
theorem mem_names_iff {o : Outline} {name : String} : name ∈ o.names ↔
    (∃ b ∈ o.structs ++ [o.union], name = b.name ∨ name ∈ b.partNames) ∨
      name ∈ o.union.parts.map Prod.snd := by
  have hcases : name ∈ (o.union.parts.flatMap fun p => [p.1, p.2]) ↔
      name ∈ o.union.partNames ∨ name ∈ o.union.parts.map Prod.snd := by
    simp only [List.mem_flatMap, List.mem_cons, List.not_mem_nil, or_false, Block.partNames,
      List.mem_map]
    constructor
    · rintro ⟨p, hp, rfl | rfl⟩
      · exact .inl ⟨p, hp, rfl⟩
      · exact .inr ⟨p, hp, rfl⟩
    · rintro (⟨p, hp, rfl⟩ | ⟨p, hp, rfl⟩)
      · exact ⟨p, hp, .inl rfl⟩
      · exact ⟨p, hp, .inr rfl⟩
  rw [names, List.mem_append, List.mem_flatMap, List.mem_cons, hcases]
  simp only [List.mem_append, List.mem_cons, List.not_mem_nil, or_false, or_and_right, exists_or,
    exists_eq_left, or_assoc]

variable (d : Destination) (g : Grammar)

/-- The parts of every declaration are named by escaped names. -/
theorem exists_eq_escape_of_mem_partNames {b : Block}
    (hb : b ∈ (ofGrammar d g).structs ++ [(ofGrammar d g).union]) {name : String}
    (hname : name ∈ b.partNames) : ∃ given, name = d.target.escape given := by
  rcases List.mem_append.mp hb with hb | hb
  · obtain ⟨v, -, rfl⟩ := List.mem_map.mp hb
    rw [partNames_struct] at hname
    obtain ⟨given, -, rfl⟩ := List.mem_map.mp hname
    exact ⟨given, rfl⟩
  · rw [List.mem_singleton.mp hb, partNames_union] at hname
    obtain ⟨given, -, rfl⟩ := List.mem_map.mp hname
    exact ⟨given, rfl⟩

/-- The declarations are named as the types of the grammar are. -/
theorem map_name_ofGrammar : ((ofGrammar d g).structs ++ [(ofGrammar d g).union]).map Block.name =
    g.variants.map Variant.name ++ [g.base] := by
  simp only [ofGrammar, List.map_append, List.map_map]
  rfl

theorem map_snd_union : (ofGrammar d g).union.parts.map Prod.snd = g.variants.map Variant.name := by
  simp only [ofGrammar, List.map_map]
  rfl

end Outline

/-- No part of a declaration is named by a reserved word. The declarations themselves are written
as they are named, so no name is a reserved word exactly if none was given to a type. -/
theorem SourceFile.not_mem_keywords_iff (d : Destination) (g : Grammar) :
    (SourceFile.ofGrammar d g).text = (Outline.ofGrammar d g).text d.target ∧
      (∀ b ∈ (Outline.ofGrammar d g).structs ++ [(Outline.ofGrammar d g).union],
        ∀ name ∈ b.partNames, name ∉ d.target.keywords) ∧
      ((∀ name ∈ (Outline.ofGrammar d g).names, name ∉ d.target.keywords) ↔
        g.base ∉ d.target.keywords ∧ ∀ v ∈ g.variants, v.name ∉ d.target.keywords) := by
  have hparts : ∀ b ∈ (Outline.ofGrammar d g).structs ++ [(Outline.ofGrammar d g).union],
      ∀ name ∈ b.partNames, name ∉ d.target.keywords := by
    intro b hb name hname
    obtain ⟨given, rfl⟩ := Outline.exists_eq_escape_of_mem_partNames d g hb hname
    exact Target.escape_not_mem_keywords d.target given
  have htypes : (∀ name ∈ g.variants.map Variant.name ++ [g.base], name ∉ d.target.keywords) ↔
      g.base ∉ d.target.keywords ∧ ∀ v ∈ g.variants, v.name ∉ d.target.keywords := by
    rw [List.forall_mem_append, List.forall_mem_singleton, List.forall_mem_map, and_comm]
  refine ⟨text_ofGrammar d g, hparts, ?_⟩
  rw [← htypes, ← Outline.map_name_ofGrammar d g]
  constructor
  · intro h name hname
    obtain ⟨b, hb, rfl⟩ := List.mem_map.mp hname
    exact h _ (Outline.mem_names_iff.mpr (.inl ⟨b, hb, .inl rfl⟩))
  · intro h name hname
    rcases Outline.mem_names_iff.mp hname with ⟨b, hb, rfl | hpart⟩ | hheld
    · exact h _ (List.mem_map.mpr ⟨b, hb, rfl⟩)
    · exact hparts b hb name hpart
    · rw [Outline.map_snd_union] at hheld
      refine h name ?_
      rw [Outline.map_name_ofGrammar]
      exact List.mem_append_left _ hheld

/-- An accepted table with a variant named by a word that is reserved in both languages. -/
theorem SourceFile.mem_keywords_fn :
    ∃ g, Grammar.read "E" ["fn : a: T"] = .ok g ∧
      ∀ t, (SourceFile.ofGrammar (.standard t) g).text =
          (Outline.ofGrammar (.standard t) g).text t ∧
        "fn" ∈ t.keywords ∧ "fn" ∈ (Outline.ofGrammar (.standard t) g).names := by
  refine ⟨⟨"E", [⟨"fn", [⟨"a", "T"⟩]⟩]⟩, rfl, fun t => ⟨text_ofGrammar _ _, ?_⟩⟩
  cases t <;> decide

end NodeDecl
