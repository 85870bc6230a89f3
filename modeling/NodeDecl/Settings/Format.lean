import NodeDecl.Data.Ini
import NodeDecl.Data.Json5
import NodeDecl.Data.Ron
import NodeDecl.Data.Yaml.Node
import NodeDecl.Toml.Document
import NodeDecl.Toml.Plain

/-! # Formats of settings files

Settings are written in TOML. The file for settings of the user can also be in one of the other
formats, which is then told by its extension.
-/

namespace NodeDecl
open Data

inductive Format where
  | toml
  | json
  | yaml
  | ini
  | ron
  | json5
deriving DecidableEq

namespace Format

def all : List Format := [toml, json, yaml, ini, ron, json5]

/-- The extensions of files in the format. -/
def extensions : Format → List String
  | toml => ["toml"]
  | json => ["json"]
  | yaml => ["yaml", "yml"]
  | ini => ["ini"]
  | ron => ["ron"]
  | json5 => ["json5"]

/-- The value that a file in the format holds, or none if it is not well formed. -/
def read? (f : Format) (cs : List Char) : Option Value :=
  match f with
  | toml => (Toml.readDocument cs).bind fun entries => (Toml.Value.table entries).toData?
  | json => Json.read? cs
  | yaml => Yaml.read? cs
  | ini => Ini.read? cs
  | ron => Ron.read? cs
  | json5 => Json5.read? cs

end Format

end NodeDecl
