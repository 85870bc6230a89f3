import NodeDecl.Proofs.Declaration.ReadBack

/-! # Outlines in writing

The text of a layout is its outline in writing: nothing but the names and the types of the outline
stands between the fixed parts of the lines. This holds whatever the types are, also where the text
could not be read back.
-/

namespace NodeDecl

namespace Outline

/-- The line of a part of a struct. -/
def memberLine : Target → String × String → String
  | .zig, p => "    " ++ p.1 ++ ": " ++ p.2 ++ ","
  | .rust, p => "    pub " ++ p.1 ++ ": " ++ p.2 ++ ","

/-- The line of a part of the union. -/
def caseLine : Target → String × String → String
  | .zig, p => "    " ++ p.1 ++ ": " ++ p.2 ++ ","
  | .rust, p => "    " ++ p.1 ++ "(" ++ p.2 ++ "),"

/-- The lines of a struct, with an empty line after them. -/
def structLines : Target → Block → List String
  | .zig, b => ("const " ++ b.name ++ " = struct \x7b") :: b.parts.map (memberLine .zig) ++
      ["\x7d;", ""]
  | .rust, b => ["#[derive(Debug, Clone)]", "pub struct " ++ b.name ++ " \x7b"] ++
      b.parts.map (memberLine .rust) ++ ["\x7d", ""]

/-- The lines of the union. -/
def unionBlockLines : Target → Block → List String
  | .zig, b => ("pub const " ++ b.name ++ " = union(enum) \x7b") :: b.parts.map (caseLine .zig) ++
      ["\x7d;"]
  | .rust, b => ["#[allow(non_camel_case_types)]", "#[derive(Debug, Clone)]",
      "pub enum " ++ b.name ++ " \x7b"] ++ b.parts.map (caseLine .rust) ++ ["\x7d"]

/-- The outline in writing. -/
def text (t : Target) (o : Outline) : String :=
  Text.unlines (headLines t o.tokenModule ++
    (o.structs.flatMap (structLines t) ++ unionBlockLines t o.union))

theorem structLines_structOf (t : Target) (n : Node) :
    structLines t (structOf t n) = nodeLines t n := by
  cases t <;> simp only [structLines, structOf, nodeLines, Node.zigLines, Node.rustLines,
    List.map_map] <;> rfl

theorem unionBlockLines_caseOf (t : Target) (l : Layout) :
    unionBlockLines t ⟨l.base, l.nodes.map (caseOf t)⟩ = unionLines t l := by
  cases t <;> simp only [unionBlockLines, unionLines, Layout.zigUnion, Layout.rustEnum,
    List.map_map] <;> rfl

theorem text_ofLayout (t : Target) (tokenModule : String) (l : Layout) :
    (ofLayout t tokenModule l).text t = l.text t tokenModule := by
  rw [Layout.text, lines_eq, text, ofLayout]
  simp only [List.flatMap_map, structLines_structOf, unionBlockLines_caseOf]

end Outline

/-- A generated file is the outline of its grammar in writing. -/
theorem SourceFile.text_ofGrammar (d : Destination) (g : Grammar) :
    (SourceFile.ofGrammar d g).text = (Outline.ofGrammar d g).text d.target := by
  rw [← Outline.ofLayout_ofGrammar, Outline.text_ofLayout]
  rfl

end NodeDecl
