import NodeDecl.Decimal.Reading
import NodeDecl.Files.Path
import NodeDecl.Settings.Layer

/-! # Settings from the environment

A variable whose name starts with `ASTGEN_`, in any case, sets a key: the rest of its name in
lower case, with a dot for each pair of underscores. Its value is read as a truth value, a whole
number or a decimal if it is one, and is text otherwise. Other variables say where the settings of
the user are.
-/

namespace NodeDecl
open Files Text

/-- The variables of a process, and the home directory that the system has on record for its
user. -/
structure Environment where
  bindings : List (String × String)
  recordedHome? : Option String
deriving DecidableEq, Inhabited

namespace Environment

/-- The home directory of the user: the one that `HOME` names, or else the one on record. -/
def home? (e : Environment) : Option String :=
  ((e.bindings.lookup "HOME").filter (· ≠ "")).or (e.recordedHome?.filter (· ≠ ""))

/-- The directory for settings of all programs of the user. `XDG_CONFIG_HOME` names it if it is
absolute; a user without a home directory has none. -/
def settingsDirectory? (e : Environment) : Option String :=
  e.home?.map fun home =>
    ((e.bindings.lookup "XDG_CONFIG_HOME").filter fun directory =>
      (Route.ofPath directory).fromRoot).getD (joinPath home ".config")

/-- The place of the settings of the user. -/
def userPlace? (e : Environment) : Option String :=
  e.settingsDirectory?.map fun directory => joinPath (joinPath directory "astgen") "astgen.toml"

end Environment

/-- The text with a dot for each pair of underscores, from left to right. -/
def dotPairs : List Char → List Char
  | '_' :: '_' :: rest => '.' :: dotPairs rest
  | c :: rest => c :: dotPairs rest
  | [] => []

def variablePrefix : List Char := "astgen_".toList

/-- The key that a variable sets. -/
def variableKey? (name : String) : Option String :=
  let cs := (lowerCase name).toList
  if variablePrefix.isPrefixOf cs then some (.ofList (dotPairs (cs.drop variablePrefix.length)))
  else none

/-- The value of a variable. -/
def Item.ofVariable (value : String) : Item :=
  let word := lowerCase value
  if word = "true" then .flag true
  else if word = "false" then .flag false
  else match (readInteger? value.toList).filter fitsInt64 with
    | some i => .integer i
    | none => match Binary64.read? value.toList with
      | some x => .decimal x
      | none => .text value

/-- The keys and values that some variables set. -/
def variableEntries (bindings : List (String × String)) : List (String × Item) :=
  bindings.filterMap fun v => (variableKey? v.1).map fun key => (key, .ofVariable v.2)

end NodeDecl
