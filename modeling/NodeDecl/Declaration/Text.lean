import NodeDecl.Declaration.Rust
import NodeDecl.Declaration.Zig
import NodeDecl.Text.Split

/-! # The text of a file of declarations -/

namespace NodeDecl

def Layout.lines (target : Target) (tokenModule : String) (l : Layout) : List String :=
  match target with
  | .zig => l.zigLines tokenModule
  | .rust => l.rustLines tokenModule

/-- The declarations of a layout, as they stand in the file. -/
def Layout.text (target : Target) (tokenModule : String) (l : Layout) : String :=
  Text.unlines (l.lines target tokenModule)

end NodeDecl
