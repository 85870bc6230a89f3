import NodeDecl.Settings.Basic
import NodeDecl.Toml.Document
import NodeDecl.Toml.Quoting

/-! # Settings as a TOML document

The document has two tables, one for the grammar and one for the output. Keys that are not set
are left out. Reading it back asks for texts where texts are written.
-/

namespace NodeDecl.Settings
open Toml

def writeOptional (key : String) : Option String → List Char
  | none => []
  | some s => writeAssignment key (writeText s)

/-- The TOML document that holds the settings. -/
def document (s : Settings) : List Char :=
  "[grammar]\n".toList ++ writeAssignment "base_name" (writeText s.base) ++
    writeAssignment "variants" (writeTexts s.entries) ++
    "\n[output]\n".toList ++ writeAssignment "target" (writeText s.target.name) ++
    writeOptional "file_name" s.fileName? ++ writeOptional "token_module" s.tokenModule?

def toToml (s : Settings) : String := .ofList s.document

/-- Reads the settings that the table of a document holds; what is missing has its default. -/
def ofTable? (root : Value) : Option Settings := do
  let d : Settings := {}
  let grammar ← root.sectionOf? "grammar"
  let output ← root.sectionOf? "output"
  let base? ← grammar.textOf? "base_name"
  let entries? ← grammar.textsOf? "variants"
  let target? ← output.textOf? "target"
  let target ← match target? with
    | none => some d.target
    | some name => Target.ofName? name
  let fileName? ← output.textOf? "file_name"
  let tokenModule? ← output.textOf? "token_module"
  return ⟨base?.getD d.base, entries?.getD d.entries, target, fileName?, tokenModule?⟩

/-- The settings that a document holds, or none if it is no document of settings. -/
def ofToml? (text : String) : Option Settings :=
  (readDocument text.toList).bind fun entries => ofTable? (.table entries)

end NodeDecl.Settings
