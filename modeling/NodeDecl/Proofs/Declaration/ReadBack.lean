import NodeDecl.Declaration.Outline
import NodeDecl.Proofs.Grammar.Reading
import NodeDecl.SourceFile

/-! # Reading declarations back

The text of a layout is read back into its outline. Types are arbitrary text: on the line of a
member the name ends at the first colon, since an escaped name holds none, and a type cannot be
taken for the structure around it, since it never begins a line. So the text of a generated file
determines the base name, the names of the variants, and what is written for each field.
-/

namespace NodeDecl
open Text

/-- Escaping puts nothing but its own marks into a name. -/
theorem Target.not_mem_escape {c : Char} {name : String} (hname : c ∉ name.toList)
    (hc : c ∉ ['@', '"', '_', 'r', '#']) (t : Target) : c ∉ (t.escape name).toList := by
  simp only [List.mem_cons, List.not_mem_nil, or_false, not_or] at hc
  obtain ⟨h1, h2, h3, h4, h5⟩ := hc
  cases t with
  | zig =>
    simp only [escape]
    split
    · simp [hname, h1, h2]
    · exact hname
  | rust =>
    simp only [escape]
    split
    · simp [hname, h3]
    · split
      · simp [hname, h4, h5]
      · exact hname

/-- A member whose line is read back: its type stays on the line. -/
structure Member.Legible (m : Member) : Prop where
  name : ∀ c ∈ m.name.toList, isNameChar c = true
  type : '\n' ∉ m.type.toList

structure Node.Legible (n : Node) : Prop where
  name : ∀ c ∈ n.name.toList, isNameChar c = true
  tag : ∀ c ∈ n.tag.toList, isNameChar c = true
  members : ∀ m ∈ n.members, m.Legible

structure Layout.Legible (l : Layout) : Prop where
  base : ∀ c ∈ l.base.toList, isNameChar c = true
  nodes : ∀ n ∈ l.nodes, n.Legible

namespace Outline

/-- What is written for a member: its escaped name and its type. -/
def partOf (t : Target) (m : Member) : String × String := (t.escape m.name, m.type)

/-- The struct of a node. -/
def structOf (t : Target) (n : Node) : Block := ⟨n.name, n.members.map (partOf t)⟩

/-- The case of a node: its escaped tag and the name of its struct. -/
def caseOf (t : Target) (n : Node) : String × String := (t.escape n.tag, n.name)

/-- The outline of the declarations of a layout. -/
def ofLayout (t : Target) (tokenModule : String) (l : Layout) : Outline :=
  ⟨tokenModule, l.nodes.map (structOf t), ⟨l.base, l.nodes.map (caseOf t)⟩⟩

theorem typed?_append {name : List Char} (h : ':' ∉ name) (type : List Char) :
    typed? (name ++ ':' :: ' ' :: type) = some (.ofList name, .ofList type) := by
  simp only [typed?, cut?_append h]

theorem member?_zigLine {m : Member} (h : ':' ∉ m.name.toList) :
    member? m.zigLine.toList .zig = some (partOf .zig m) := by
  have he := Target.not_mem_escape h (by decide) .zig
  have hline : m.zigLine.toList = "    ".toList ++
      ((Target.zig.escape m.name).toList ++ ':' :: ' ' :: m.type.toList) ++ [','] := by
    simp [Member.zigLine]
  rw [member?, hline, between?_append, Option.bind_some, typed?_append he]
  simp [partOf]

theorem member?_rustLine {m : Member} (h : ':' ∉ m.name.toList) :
    member? m.rustLine.toList .rust = some (partOf .rust m) := by
  have he := Target.not_mem_escape h (by decide) .rust
  have hline : m.rustLine.toList = "    pub ".toList ++
      ((Target.rust.escape m.name).toList ++ ':' :: ' ' :: m.type.toList) ++ [','] := by
    simp [Member.rustLine]
  rw [member?, hline, between?_append, Option.bind_some, typed?_append he]
  simp [partOf]

theorem case?_zigCase {n : Node} (h : ':' ∉ n.tag.toList) :
    case? n.zigCase.toList .zig = some (caseOf .zig n) := by
  have he := Target.not_mem_escape h (by decide) .zig
  have hline : n.zigCase.toList = "    ".toList ++
      ((Target.zig.escape n.tag).toList ++ ':' :: ' ' :: n.name.toList) ++ [','] := by
    simp [Node.zigCase]
  rw [case?, hline, between?_append, Option.bind_some, typed?_append he]
  simp [caseOf]

theorem case?_rustCase {n : Node} (h : '(' ∉ n.tag.toList) :
    case? n.rustCase.toList .rust = some (caseOf .rust n) := by
  have he := Target.not_mem_escape h (by decide) .rust
  have hline : n.rustCase.toList = "    ".toList ++
      ((Target.rust.escape n.tag).toList ++ '(' :: n.name.toList) ++ [')', ','] := by
    simp [Node.rustCase]
  rw [case?, hline, between?_append, Option.bind_some, pair?, cut?_append he]
  simp [caseOf]

/-- Parts are read up to the closing line if each line is a part and none is the closing line. -/
theorem readParts_append {α : Type} {part? : List Char → Option (String × String)}
    {stop : List Char} {lineOf : α → String} {valueOf : α → String × String} {items : List α}
    (hpart : ∀ a ∈ items, part? (lineOf a).toList = some (valueOf a))
    (hstop : ∀ a ∈ items, (lineOf a).toList ≠ stop) (rest : List (List Char)) :
    readParts part? stop ((items.map lineOf).map String.toList ++ stop :: rest) =
      some (items.map valueOf, rest) := by
  induction items with
  | nil => simp [readParts]
  | cons a items ih =>
    rw [List.map_cons, List.map_cons, List.cons_append, readParts,
      if_neg (hstop a List.mem_cons_self), hpart a List.mem_cons_self,
      ih (fun b hb => hpart b (List.mem_cons_of_mem _ hb))
        (fun b hb => hstop b (List.mem_cons_of_mem _ hb))]
    rfl

/-- The lines of the struct of a node. -/
def nodeLines : Target → Node → List String
  | .zig, n => n.zigLines
  | .rust, n => n.rustLines

/-- The lines of the union of a layout. -/
def unionLines : Target → Layout → List String
  | .zig, l => l.zigUnion
  | .rust, l => l.rustEnum

/-- The lines before the declarations. -/
def headLines : Target → String → List String
  | .zig, m => zigHead m
  | .rust, m => rustHead m

theorem lines_eq (t : Target) (tokenModule : String) (l : Layout) :
    l.lines t tokenModule =
      headLines t tokenModule ++ (l.nodes.flatMap (nodeLines t) ++ unionLines t l) := by
  cases t with
  | zig => exact List.append_assoc _ _ _
  | rust => exact List.append_assoc _ _ _

theorem readHead_headLines (t : Target) (tokenModule : String) (rest : List (List Char)) :
    readHead t ((headLines t tokenModule).map String.toList ++ rest) =
      some (tokenModule, rest) := by
  cases t with
  | zig =>
    simp only [headLines, zigHead, List.map_cons, List.map_nil, List.cons_append, List.nil_append,
      readHead, if_true, between?_toList, Option.map_some, String.ofList_toList]
  | rust =>
    have hempty : "".toList = [] := rfl
    simp only [headLines, rustHead, List.map_cons, List.map_nil, List.cons_append, List.nil_append,
      hempty, readHead, and_self, if_true, between?_toList, Option.map_some,
      String.ofList_toList]

/-- A struct is opened by its first lines, and its parts and an empty line follow. -/
theorem openStruct?_nodeLines {t : Target} {n : Node} (hn : n.Legible)
    (rest : List (List Char)) :
    ∃ start, openStruct? t ((nodeLines t n).map String.toList ++ rest) = some (n.name, start) ∧
      readParts (member? · t) (closing t) start = some (n.members.map (partOf t), [] :: rest) := by
  have hempty : "".toList = [] := rfl
  cases t with
  | zig =>
    have hclose : "\x7d;".toList = closing .zig := rfl
    refine ⟨(n.members.map Member.zigLine).map String.toList ++ closing .zig :: [] :: rest, ?_, ?_⟩
    · simp only [nodeLines, Node.zigLines, List.map_cons, List.map_append, List.map_nil,
        List.cons_append, List.append_assoc, List.nil_append, openStruct?, between?_toList,
        Option.map_some, String.ofList_toList, hclose, hempty]
    · apply readParts_append
      · exact fun m hm => member?_zigLine (not_mem_of_isNameChar (hn.members m hm).name (by decide))
      · exact fun m _ => by simp [Member.zigLine, closing]
  | rust =>
    have hclose : "\x7d".toList = closing .rust := rfl
    have hderive : "#[derive(Debug, Clone)]".toList = deriveLine := rfl
    refine ⟨(n.members.map Member.rustLine).map String.toList ++ closing .rust :: [] :: rest,
      ?_, ?_⟩
    · simp only [nodeLines, Node.rustLines, List.map_cons, List.map_append, List.map_nil,
        List.cons_append, List.append_assoc, List.nil_append, openStruct?, hderive, if_true,
        between?_toList, Option.map_some, String.ofList_toList, hclose, hempty]
    · apply readParts_append
      · exact fun m hm =>
          member?_rustLine (not_mem_of_isNameChar (hn.members m hm).name (by decide))
      · exact fun m _ => by simp [Member.rustLine, closing]

/-- The union opens no struct, so it ends the structs. -/
theorem openStruct?_unionLines (t : Target) (l : Layout) (rest : List (List Char)) :
    openStruct? t ((unionLines t l).map String.toList ++ rest) = none := by
  cases t with
  | zig =>
    have hline : between? "const ".toList " = struct \x7b".toList
        ("pub const " ++ l.base ++ " = union(enum) \x7b").toList = none := by
      simp [between?]
    simp only [unionLines, Layout.zigUnion, List.map_cons, List.cons_append, openStruct?, hline,
      Option.map_none]
  | rust =>
    have hline : "#[allow(non_camel_case_types)]".toList ≠ deriveLine := by decide
    simp only [unionLines, Layout.rustEnum, List.map_cons, List.cons_append, openStruct?,
      if_neg hline]

theorem readStructs_append {t : Target} {nodes : List Node} (hn : ∀ n ∈ nodes, n.Legible)
    {rest : List (List Char)} (hrest : openStruct? t rest = none) :
    readStructs t ((nodes.flatMap (nodeLines t)).map String.toList ++ rest) =
      some (nodes.map (structOf t), rest) := by
  induction nodes with
  | nil =>
    rw [readStructs, List.flatMap_nil, List.map_nil, List.nil_append, hrest]
    rfl
  | cons n nodes ih =>
    obtain ⟨start, hopen, hparts⟩ := openStruct?_nodeLines (t := t) (hn n List.mem_cons_self)
      ((nodes.flatMap (nodeLines t)).map String.toList ++ rest)
    have hshort (others : List (List Char)) : others.length <
        ((nodeLines t n).map String.toList ++ others).length := by
      cases t <;> simp [nodeLines, Node.zigLines, Node.rustLines] <;> omega
    rw [List.flatMap_cons, List.map_append, List.append_assoc, readStructs]
    simp only [hopen, hparts, if_pos (hshort _),
      ih fun m hm => hn m (List.mem_cons_of_mem _ hm), Option.map_some]
    rfl

theorem readUnion_unionLines {t : Target} {l : Layout} (hl : l.Legible) :
    readUnion t ((unionLines t l).map String.toList ++ [[]]) =
      some ⟨l.base, l.nodes.map (caseOf t)⟩ := by
  cases t with
  | zig =>
    have hclose : "\x7d;".toList = closing .zig := rfl
    have hparts : readParts (case? · .zig) (closing .zig)
        ((l.nodes.map Node.zigCase).map String.toList ++ closing .zig :: [[]]) =
          some (l.nodes.map (caseOf .zig), [[]]) := by
      apply readParts_append
      · exact fun n hn => case?_zigCase (not_mem_of_isNameChar (hl.nodes n hn).tag (by decide))
      · exact fun n _ => by simp [Node.zigCase, closing]
    simp only [unionLines, Layout.zigUnion, List.map_cons, List.map_append, List.map_nil,
      List.cons_append, List.append_assoc, List.nil_append, readUnion, openUnion?,
      between?_toList, Option.map_some, String.ofList_toList, hclose, hparts]
  | rust =>
    have hclose : "\x7d".toList = closing .rust := rfl
    have hderive : "#[derive(Debug, Clone)]".toList = deriveLine := rfl
    have hparts : readParts (case? · .rust) (closing .rust)
        ((l.nodes.map Node.rustCase).map String.toList ++ closing .rust :: [[]]) =
          some (l.nodes.map (caseOf .rust), [[]]) := by
      apply readParts_append
      · exact fun n hn => case?_rustCase (not_mem_of_isNameChar (hl.nodes n hn).tag (by decide))
      · exact fun n _ => by simp [Node.rustCase, closing]
    simp only [unionLines, Layout.rustEnum, List.map_cons, List.map_append, List.map_nil,
      List.cons_append, List.append_assoc, List.nil_append, readUnion, openUnion?, hderive,
      and_self, if_true, between?_toList, Option.map_some, String.ofList_toList, hclose, hparts]

/-- No line of a legible layout is broken. -/
theorem not_mem_lines {t : Target} {tokenModule : String} {l : Layout}
    (hm : '\n' ∉ tokenModule.toList) (hl : l.Legible) :
    ∀ line ∈ l.lines t tokenModule, '\n' ∉ line.toList := by
  have hbase := not_mem_of_isNameChar (c := '\n') hl.base (by decide)
  have hname {n : Node} (hn : n ∈ l.nodes) :=
    not_mem_of_isNameChar (c := '\n') (hl.nodes n hn).name (by decide)
  have htag {n : Node} (hn : n ∈ l.nodes) := Target.not_mem_escape (t := t)
    (not_mem_of_isNameChar (c := '\n') (hl.nodes n hn).tag (by decide)) (by decide)
  have hpart {n : Node} (hn : n ∈ l.nodes) {m : Member} (hmem : m ∈ n.members) :=
    Target.not_mem_escape (t := t)
      (not_mem_of_isNameChar (c := '\n') ((hl.nodes n hn).members m hmem).name (by decide))
      (by decide)
  intro line hline
  cases t with
  | zig =>
    simp only [Layout.lines, Layout.zigLines, zigHead, Layout.zigUnion, Node.zigLines,
      List.mem_append, List.mem_cons, List.not_mem_nil, or_false, List.mem_flatMap,
      List.mem_map] at hline
    rcases hline with ((rfl | rfl) | ⟨n, hn, (rfl | ⟨m, hmem, rfl⟩) | rfl | rfl⟩) |
      (rfl | ⟨n, hn, rfl⟩) | rfl
    · decide
    · simp [hm]
    · simp [hname hn]
    · simp [Member.zigLine, hpart hn hmem, ((hl.nodes n hn).members m hmem).type]
    · decide
    · decide
    · simp [hbase]
    · simp [Node.zigCase, hname hn, htag hn]
    · decide
  | rust =>
    simp only [Layout.lines, Layout.rustLines, rustHead, Layout.rustEnum, Node.rustLines,
      List.mem_append, List.mem_cons, List.not_mem_nil, or_false, List.mem_flatMap,
      List.mem_map] at hline
    rcases hline with ((rfl | rfl | rfl | rfl) | ⟨n, hn, ((rfl | rfl) | ⟨m, hmem, rfl⟩) | rfl | rfl⟩) |
      ((rfl | rfl | rfl) | ⟨n, hn, rfl⟩) | rfl
    · decide
    · decide
    · simp [hm]
    · decide
    · decide
    · simp [hname hn]
    · simp [Member.rustLine, hpart hn hmem, ((hl.nodes n hn).members m hmem).type]
    · decide
    · decide
    · decide
    · decide
    · simp [hbase]
    · simp [Node.rustCase, hname hn, htag hn]
    · decide

/-- The text of a legible layout reads as its outline. -/
theorem read_layoutText {t : Target} {tokenModule : String} {l : Layout}
    (hm : '\n' ∉ tokenModule.toList) (hl : l.Legible) :
    read t (l.text t tokenModule) = some (ofLayout t tokenModule l) := by
  unfold read
  rw [Layout.text, splitAt_unlines (not_mem_lines hm hl), lines_eq, List.map_append,
    List.append_assoc, readHead_headLines]
  simp only [List.map_append, List.append_assoc]
  rw [readStructs_append hl.nodes (openStruct?_unionLines t l [[]])]
  simp only [readUnion_unionLines hl, Option.map_some]
  rfl

end Outline

theorem Target.not_mem_resolve {c : Char} {base type : String} (hbase : c ∉ base.toList)
    (htype : c ∉ type.toList) (hc : c ∉ "*Box<>".toList) (t : Target) :
    c ∉ (t.resolve base type).1.toList := by
  have hindirect : c ∉ (t.indirect base).toList := by
    cases t <;> simp_all [indirect]
  unfold resolve
  split
  · exact hindirect
  · split
    · next written hw =>
      cases t with
      | zig => cases hw
      | rust =>
        rw [respelled?, Option.ite_none_right_eq_some] at hw
        cases hw.2
        exact hindirect
    · exact htype

/-- The layout of an accepted table whose entries are single lines is legible. -/
theorem Layout.legible_ofGrammar {base : String} {entries : List String} {g : Grammar}
    (hg : Grammar.read base entries = .ok g) (he : ∀ e ∈ entries, '\n' ∉ e.toList) (t : Target) :
    (Layout.ofGrammar t g).Legible := by
  have hbase := isNameChar_of_isName (Grammar.read_eq_ok hg).1
  refine ⟨hbase, fun n hn => ?_⟩
  obtain ⟨v, hv, rfl⟩ := List.mem_map.mp hn
  obtain ⟨entry, hentry, hread⟩ := Grammar.exists_entry_of_read hg hv
  have hname := Variant.isName_of_read hread
  refine ⟨isNameChar_of_isName hname, Variant.isNameChar_of_mem_tag hname, fun m hm => ?_⟩
  obtain ⟨f, hf, rfl⟩ := List.mem_map.mp hm
  obtain ⟨piece, hpiece, _, hchars⟩ := Variant.exists_piece_of_read hread hf
  refine ⟨isNameChar_of_isName (Field.isName_of_read hpiece), ?_⟩
  apply Target.not_mem_resolve (not_mem_of_isNameChar hbase (by decide)) _ (by decide)
  exact fun h => he entry hentry (hchars _ ((Field.type_of_read hpiece).2.2.subset h))

/-- What is written for a field of a grammar: its escaped name and its resolved type. -/
def Field.part (t : Target) (base : String) (f : Field) : String × String :=
  (t.escape f.name, (t.resolve base f.type).1)

/-- The outline that a grammar has at a destination. -/
def Outline.ofGrammar (d : Destination) (g : Grammar) : Outline where
  tokenModule := d.tokenModule
  structs := g.variants.map fun v => ⟨v.name, v.fields.map (Field.part d.target g.base)⟩
  union := ⟨g.base, g.variants.map fun v => (d.target.escape v.tag, v.name)⟩

theorem Outline.ofLayout_ofGrammar (d : Destination) (g : Grammar) :
    Outline.ofLayout d.target d.tokenModule (Layout.ofGrammar d.target g) =
      Outline.ofGrammar d g := by
  simp only [ofLayout, ofGrammar, Layout.ofGrammar, List.map_map, Function.comp_def, structOf,
    caseOf, Node.ofVariant]
  rfl

/-- A generated file reads as the outline of its grammar, which holds one struct for each variant
and one case for each struct; so two grammars with one text agree in all that is written. -/
theorem SourceFile.read_text_ofGrammar {d : Destination} {base : String} {entries : List String}
    {g : Grammar} (hg : Grammar.read base entries = .ok g)
    (he : ∀ e ∈ entries, '\n' ∉ e.toList) (hm : '\n' ∉ d.tokenModule.toList) :
    Outline.read d.target (SourceFile.ofGrammar d g).text = some (Outline.ofGrammar d g) ∧
      (SourceFile.ofGrammar d g).typeCount = (Outline.ofGrammar d g).typeCount ∧
      ∀ {base' : String} {entries' : List String} {g' : Grammar},
        Grammar.read base' entries' = .ok g' → (∀ e ∈ entries', '\n' ∉ e.toList) →
        (SourceFile.ofGrammar d g').text = (SourceFile.ofGrammar d g).text →
        g'.base = g.base ∧ g'.variants.map Variant.name = g.variants.map Variant.name ∧
          g'.variants.map (fun v => v.fields.map (Field.part d.target g'.base)) =
            g.variants.map fun v => v.fields.map (Field.part d.target g.base) := by
  have hread {base : String} {entries : List String} {g : Grammar}
      (hg : Grammar.read base entries = .ok g) (he : ∀ e ∈ entries, '\n' ∉ e.toList) :
      Outline.read d.target (SourceFile.ofGrammar d g).text = some (Outline.ofGrammar d g) := by
    rw [← Outline.ofLayout_ofGrammar]
    exact Outline.read_layoutText hm (Layout.legible_ofGrammar hg he d.target)
  refine ⟨hread hg he, ?_, ?_⟩
  · simp [SourceFile.ofGrammar, Layout.typeCount, Layout.ofGrammar, Outline.typeCount,
      Outline.ofGrammar]
  · intro base' entries' g' hg' he' htext
    have heq : Outline.ofGrammar d g' = Outline.ofGrammar d g := by
      have h := hread hg' he'
      rw [htext, hread hg he] at h
      exact (Option.some.inj h).symm
    have hstructs := congrArg Outline.structs heq
    refine ⟨congrArg (fun o => o.union.name) heq, ?_, ?_⟩
    · have h := congrArg (List.map Outline.Block.name) hstructs
      simp only [Outline.ofGrammar, List.map_map, Function.comp_def] at h
      exact h
    · have h := congrArg (List.map Outline.Block.parts) hstructs
      simp only [Outline.ofGrammar, List.map_map, Function.comp_def] at h
      exact h

/-- A table with a field of the base type, written as given. -/
def pairGrammar (type : String) : Grammar :=
  ⟨"Expr", [⟨"Pair", [⟨"type", "[]Token,b: \x7d;"⟩, ⟨"self", type⟩]⟩]⟩

/-- Two tables with one text: the box target spells the star form anew. -/
theorem SourceFile.read_text_pairGrammar :
    Grammar.read "Expr" ["Pair : type: []Token,b: \x7d;, self: Expr"] = .ok (pairGrammar "Expr") ∧
      Grammar.read " Expr" ["Pair: type: []Token,b: \x7d;, self: *Expr"] =
        .ok (pairGrammar "*Expr") ∧
      Outline.read .rust (SourceFile.ofGrammar (.standard .rust) (pairGrammar "Expr")).text =
        some (Outline.ofGrammar (.standard .rust) (pairGrammar "Expr")) ∧
      (pairGrammar "*Expr").variants.map (fun v => v.fields.map (Field.part .rust "Expr")) =
        (pairGrammar "Expr").variants.map fun v => v.fields.map (Field.part .rust "Expr") := by
  have hg : Grammar.read "Expr" ["Pair : type: []Token,b: \x7d;, self: Expr"] =
    .ok (pairGrammar "Expr") := rfl
  have hg' : Grammar.read " Expr" ["Pair: type: []Token,b: \x7d;, self: *Expr"] =
    .ok (pairGrammar "*Expr") := rfl
  have h := SourceFile.read_text_ofGrammar (d := .standard .rust) hg (by decide) (by decide)
  exact ⟨hg, hg', h.1, (h.2.2 hg' (by decide) rfl).2.2⟩

end NodeDecl
