import NodeDecl.Layout

/-! # Rust declarations

One struct with public fields for each node, then an enum over all of them. The cases of the
enum are the lower-cased tags, so the lint on their case is switched off.
-/

namespace NodeDecl

def Member.rustLine (m : Member) : String :=
  "    pub " ++ Target.rust.escape m.name ++ ": " ++ m.type ++ ","

/-- The struct of a node, with an empty line after it. -/
def Node.rustLines (n : Node) : List String :=
  ["#[derive(Debug, Clone)]", "pub struct " ++ n.name ++ " \x7b"] ++
    n.members.map Member.rustLine ++ ["\x7d", ""]

/-- The case of a node in the enum. -/
def Node.rustCase (n : Node) : String :=
  "    " ++ Target.rust.escape n.tag ++ "(" ++ n.name ++ "),"

def rustHead (tokenModule : String) : List String :=
  ["#[allow(unused_imports)]", "use std::boxed::Box;", "use " ++ tokenModule ++ "::Token;", ""]

def Layout.rustEnum (l : Layout) : List String :=
  ["#[allow(non_camel_case_types)]", "#[derive(Debug, Clone)]",
    "pub enum " ++ l.base ++ " \x7b"] ++ l.nodes.map Node.rustCase ++ ["\x7d"]

/-- The lines of a Rust file of declarations. -/
def Layout.rustLines (tokenModule : String) (l : Layout) : List String :=
  rustHead tokenModule ++ l.nodes.flatMap Node.rustLines ++ l.rustEnum

end NodeDecl
