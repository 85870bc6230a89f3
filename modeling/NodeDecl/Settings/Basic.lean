import NodeDecl.SourceFile

/-! # Settings

The settings hold the grammar table and where its declarations go. What is not set has a
default: the table of a small expression language, and for the file name and the token module
the defaults of the target.
-/

namespace NodeDecl

def standardEntries : List String :=
  ["Binary   : left: Expression, operator: Token, right: Expression",
   "Grouping : expression: Expression",
   "Literal  : value: *Expression",
   "Unary    : operator: Token, right: Expression"]

structure Settings where
  base : String := "Expression"
  entries : List String := standardEntries
  target : Target := .zig
  fileName? : Option String := none
  tokenModule? : Option String := none
deriving DecidableEq, Inhabited

namespace Settings

/-- The destination that the settings name, with the defaults of the target. -/
def destination (s : Settings) : Destination :=
  ⟨s.target, s.tokenModule?.getD s.target.tokenModule, s.fileName?.getD s.target.fileName⟩

def grammar (s : Settings) : Except Rejection Grammar := Grammar.read s.base s.entries

/-- Reads the table and makes its file. -/
def generate (s : Settings) : Except Rejection SourceFile :=
  s.grammar.map (SourceFile.ofGrammar s.destination)

/-- What is logged by `generate`. -/
def generateLog (s : Settings) : List Event :=
  Grammar.readLog s.base s.entries ++
    match s.grammar with
    | .error _ => []
    | .ok g => SourceFile.log s.destination g

end Settings

end NodeDecl
