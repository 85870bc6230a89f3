import NodeDecl.Target.Keywords

/-! # Target languages

A target decides how an indirect type is spelled, how a name that is a reserved word is
escaped, and what the generated file is called by default. A destination adds to the target
the module that declares the token type and the name of the file.
-/

namespace NodeDecl

inductive Target where
  | zig
  | rust
deriving DecidableEq, Inhabited

namespace Target

/-- The name by which settings and the command line know the target. -/
def name : Target → String
  | zig => "zig"
  | rust => "rust"

/-- The target of a name. -/
def ofName? (name : String) : Option Target := [zig, rust].find? fun t => t.name = name

/-- The name of the language. -/
def title : Target → String
  | zig => "Zig"
  | rust => "Rust"

def fileName : Target → String
  | zig => "ast.zig"
  | rust => "ast.rs"

def tokenModule : Target → String
  | zig => "scanner.zig"
  | rust => "crate::scanner"

/-- The type of an indirect member of the given type: a pointer or a box. -/
def indirect (type : String) : Target → String
  | zig => "*" ++ type
  | rust => "Box<" ++ type ++ ">"

/-- Tables write an indirect base type with a star, which is no type of a language with boxes:
there it is spelled anew. -/
def respelled? (type base : String) : Target → Option String
  | zig => none
  | rust => if type = "*" ++ base then some (rust.indirect base) else none

/-- A name that is a reserved word, in the spelling that makes it a name. -/
def escape (name : String) : Target → String
  | zig => if name ∈ zigKeywords then "@\"" ++ name ++ "\"" else name
  | rust =>
    if name ∈ rustPathKeywords then name ++ "_"
    else if name ∈ rustKeywords then "r#" ++ name
    else name

end Target

/-- Where generated declarations go: the language, the module that declares the token type,
and the name of the file. -/
structure Destination where
  target : Target
  tokenModule : String
  fileName : String
deriving DecidableEq, Inhabited

def Destination.standard (t : Target) : Destination := ⟨t, t.tokenModule, t.fileName⟩

end NodeDecl
