import NodeDecl.Settings.Basic
import NodeDecl.Settings.Fault
import NodeDecl.Settings.Layer
import NodeDecl.Text.Quoted

/-! # Settings from the merged layers

The merged tree has a section for the grammar and one for the output. A section is a table, or an
array with its keys by position. Texts may be written as truth values or numbers. Keys that are
missing have their defaults; keys that are not known, and positions after the last key, are
ignored.
-/

namespace NodeDecl
open Text

namespace Item

/-- What a value is called where another kind was expected. -/
def kindText : Item → String
  | .absent .. => "unit value"
  | .text s => "string " ++ quoted s
  | .integer i => "integer `" ++ toString i ++ "`"
  | .decimal x => "floating point `" ++ x.textWithPoint ++ "`"
  | .flag b => "boolean `" ++ toString b ++ "`"
  | .array .. => "sequence"
  | .table .. => "map"

/-- What a value is called where a file holds it in place of a table. -/
def rootText : Item → String
  | .integer i => "64-bit integer `" ++ toString i ++ "`"
  | .decimal x => "floating point `" ++ x.text ++ "`"
  | v => v.kindText

/-- The text that a value is, under a key for messages. -/
def asText (key : String) : Item → Except SettingsFault String
  | .text s => .ok s
  | .integer i => .ok (toString i)
  | .decimal x => .ok x.text
  | .flag b => .ok (toString b)
  | .absent origin? => .error (.notText "unit value" key origin?)
  | .array origin? _ => .error (.notText "sequence" key origin?)
  | .table origin? _ => .error (.notText "map" key origin?)

/-- The text that a value is, or none if there is no value. -/
def asText? (key : String) : Item → Except SettingsFault (Option String)
  | .absent .. => .ok none
  | v => (v.asText key).map some

/-- The texts that the items from an index on are. -/
def textsFrom (key : String) (index : Nat) : List Item → Except SettingsFault (List String)
  | [] => .ok []
  | v :: rest =>
    match v.asText (key ++ "[" ++ toString index ++ "]") with
    | .error fault => .error fault
    | .ok s => (textsFrom key (index + 1) rest).map (s :: ·)

def asTexts (key : String) : Item → Except SettingsFault (List String)
  | .array _ items => textsFrom key 0 items
  | v => .error (.mismatch v.kindText "a sequence")

/-- A target by its name, in any case. -/
def targetNamed (name : String) : Except SettingsFault Target :=
  match Target.ofName? (lowerCase name) with
  | some t => .ok t
  | none => .error (.unknownTarget name)

/-- A target is a name, or a table with one key, which is the name. -/
def asTarget : Item → Except SettingsFault Target
  | .text s => targetNamed s
  | .table _ [(key, _)] => targetNamed key
  | _ => .error .targetShape

/-- The values of a section under its keys, each with its key for messages. -/
def sectionValues (name kind : String) (keys : List String) :
    Item → Except SettingsFault (List (String × Option Item))
  | .table _ entries => .ok (keys.map fun key => (name ++ "." ++ key, entries.lookup key))
  | .array _ items =>
    .ok (keys.mapIdx fun i _ => (name ++ "[" ++ toString i ++ "]", items[i]?))
  | v => .error (.mismatch v.kindText ("struct " ++ kind))

/-- Reads a value if it is there. -/
def readOr {α : Type} (default : α) (read : String → Item → Except SettingsFault α) :
    String × Option Item → Except SettingsFault α
  | (_, none) => .ok default
  | (key, some v) => read key v

end Item

namespace Settings
open Item

/-- The base name and the entries of the grammar section. -/
def readGrammar (d : Settings) (v : Item) : Except SettingsFault Settings := do
  match ← sectionValues "grammar" "GrammarConfig" ["base_name", "variants"] v with
  | [base, entries] =>
    let base ← readOr d.base asText base
    let entries ← readOr d.entries asTexts entries
    return { d with base := base, entries := entries }
  | _ => return d

/-- The target, the file name and the token module of the output section. -/
def readOutput (d : Settings) (v : Item) : Except SettingsFault Settings := do
  match ← sectionValues "output" "OutputConfig" ["target", "file_name", "token_module"] v with
  | [target, fileName, tokenModule] =>
    let target ← readOr d.target (fun _ => asTarget) target
    let fileName? ← readOr d.fileName? asText? fileName
    let tokenModule? ← readOr d.tokenModule? asText? tokenModule
    return { d with target := target, fileName? := fileName?, tokenModule? := tokenModule? }
  | _ => return d

/-- The settings that the merged layers hold. -/
def ofLayers (root : Item) : Except SettingsFault Settings := do
  let s ← match root.get? "grammar" with
    | some v => readGrammar {} v
    | none => pure {}
  match root.get? "output" with
  | some v => readOutput s v
  | none => return s

end Settings

end NodeDecl
