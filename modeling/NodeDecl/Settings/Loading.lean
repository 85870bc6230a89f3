import NodeDecl.Failure
import NodeDecl.Settings.Environment
import NodeDecl.Settings.Format
import NodeDecl.Settings.KeyPath
import NodeDecl.Settings.Readout

/-! # Loading settings

Settings are looked for in four places, then in a file that is asked for by name, then in the
environment; later sources win. A file that is not found or is no text is passed over, unless it
was asked for. A file that is not well formed always stops the loading.
-/

namespace NodeDecl
open Files

/-- The places where settings are looked for, relative to the working directory. -/
def standardPlaces : List String := ["astgen.toml", ".astgen.toml", "config/astgen.toml"]

/-- A file that settings may be in, and the formats that it may have, the first of them without
a further extension. -/
structure Source where
  name : String
  formats : List Format
  required : Bool

/-- The path with another extension after its last step. -/
def withExtension? (path extension : String) : Option String :=
  let r := Route.ofPath path
  (fileName? path).map fun name =>
    joinPath (pathOfSteps r.fromRoot r.plainSteps.dropLast) (name ++ "." ++ extension)

namespace Source

/-- The paths at which the file is looked for, and the format that it has there. -/
def candidates (s : Source) : List (String × Format) :=
  (s.formats.take 1).map (s.name, ·) ++ s.formats.flatMap fun f =>
    f.extensions.filterMap fun e => (withExtension? s.name e).map (·, f)

/-- The file that the settings are in. -/
def locate? (s : Source) (t : Tree) : Option (String × Format) :=
  s.candidates.find? fun c => t.isFile c.1

end Source

/-- The steps from a directory below the root to where some steps from the root lead: those that
lead to the directory are left out. -/
def stepsFrom : List String → List Step → List Step
  | name :: directory, .child first :: steps =>
    if first = name then stepsFrom directory steps
    else (name :: directory).map (fun _ => .up) ++ .child first :: steps
  | directory, steps => directory.map (fun _ => .up) ++ steps

/-- The path of a settings file as messages show it, from the working directory. -/
def shownPath (here : Location) (path : String) : String :=
  let r := Route.ofPath path
  let steps := r.steps.filter (· ≠ .here)
  pathOfSteps false (if r.fromRoot then stepsFrom here.reverse steps else steps)

/-- The entries that a file of some format holds. -/
def entriesIn (f : Format) (file text : String) : Except SettingsFault (List (String × Item)) :=
  match (f.read? text.toList).map (Item.ofData file) with
  | none => .error (.badDocument file)
  | some (.table _ entries) => .ok entries
  | some v => .error (.noTable v.rootText file)

/-- The entries of a settings file, or none if it can be passed over. -/
def Source.entries? (s : Source) (t : Tree) :
    Except SettingsFault (Option (List (String × Item))) :=
  match s.locate? t with
  | none => if s.required then .error (.missingFile s.name) else .ok none
  | some (path, format) => match t.readText path with
    | .error _ => if s.required then .error .unreadableFile else .ok none
    | .ok text => (entriesIn format (shownPath t.here path) text).map some

def standardSources : List Source := standardPlaces.map (⟨·, [.toml], false⟩)

/-- The file of the user. -/
def userSource (place? : Option String) : List Source :=
  place?.toList.map (⟨·, Format.all, false⟩)

/-- The file that is asked for by name. -/
def askedSource (asked? : Option String) : List Source :=
  asked?.toList.map (⟨·, [.toml], true⟩)

/-- The files that settings may be in, the earlier first. The file of the user is one of them only
if there is something at its place. -/
def sources (t : Tree) (environment : Environment) (asked? : Option String) : List Source :=
  standardSources ++ userSource (environment.userPlace?.filter fun place => t.contains place) ++
    askedSource asked?

/-- The paths at which files of settings are looked for. -/
def probedPaths (environment : Environment) (asked? : Option String) : List String :=
  (standardSources ++ userSource environment.userPlace? ++ askedSource asked?).flatMap fun s =>
    s.candidates.map (·.1)

/-- Merges the files in order into what is there. -/
def mergeSources (t : Tree) (root : Item) : List Source → Except SettingsFault Item
  | [] => .ok root
  | s :: rest => match s.entries? t with
    | .error fault => .error fault
    | .ok none => mergeSources t root rest
    | .ok (some entries) => mergeSources t (root.setAll entries) rest

/-- Loads the settings, with a file that is asked for and the variables of the environment. -/
def Settings.load (t : Tree) (asked? : Option String) (environment : Environment) :
    Except SettingsFault Settings :=
  match mergeSources t (.table none []) (sources t environment asked?) with
  | .error fault => .error fault
  | .ok root => Settings.ofLayers (root.setAll (variableEntries environment.bindings))

/-- What is logged by `Settings.load`. -/
def Settings.loadLog (asked? : Option String) : List Event :=
  match asked? with
  | some name => [.settingsNamed name]
  | none => []

end NodeDecl
