import NodeDecl.Layout

/-! # Zig declarations

One struct for each node, then a tagged union over all of them.
-/

namespace NodeDecl

def Member.zigLine (m : Member) : String :=
  "    " ++ Target.zig.escape m.name ++ ": " ++ m.type ++ ","

/-- The struct of a node, with an empty line after it. -/
def Node.zigLines (n : Node) : List String :=
  ("const " ++ n.name ++ " = struct \x7b") :: n.members.map Member.zigLine ++ ["\x7d;", ""]

/-- The case of a node in the union. -/
def Node.zigCase (n : Node) : String :=
  "    " ++ Target.zig.escape n.tag ++ ": " ++ n.name ++ ","

def zigHead (tokenModule : String) : List String :=
  ["const std = @import(\"std\");", "const Token = @import(\"" ++ tokenModule ++ "\").Token;"]

def Layout.zigUnion (l : Layout) : List String :=
  ("pub const " ++ l.base ++ " = union(enum) \x7b") :: l.nodes.map Node.zigCase ++ ["\x7d;"]

/-- The lines of a Zig file of declarations. -/
def Layout.zigLines (tokenModule : String) (l : Layout) : List String :=
  zigHead tokenModule ++ l.nodes.flatMap Node.zigLines ++ l.zigUnion

end NodeDecl
