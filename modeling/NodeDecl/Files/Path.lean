import NodeDecl.Text.Split

/-! # Paths

A path is text, and is shown as it was written. To find a file its steps are walked one by one:
`.` stays, `..` goes to the enclosing directory, any other step goes to an entry of that name.
-/

namespace NodeDecl.Files
open Text

/-- A name inside a directory. An absolute name stands for itself. -/
def joinPath (directory name : String) : String :=
  if name.toList.head? = some '/' then name
  else if directory = "" ∨ directory.toList.getLast? = some '/' then directory ++ name
  else directory ++ "/" ++ name

inductive Step where
  | here
  | up
  | child (name : String)
deriving DecidableEq, Inhabited

def Step.ofPart (part : List Char) : Step :=
  if part = ['.'] then .here else if part = ['.', '.'] then .up else .child (.ofList part)

def Step.text : Step → String
  | here => "."
  | up => ".."
  | child name => name

/-- The steps of a path, where it starts, and whether a separator follows its last step. -/
structure Route where
  fromRoot : Bool
  steps : List Step
  slashed : Bool
deriving DecidableEq, Inhabited

def Route.ofPath (path : String) : Route :=
  let cs := path.toList
  { fromRoot := cs.head? == some '/'
    steps := ((Text.splitAt '/' cs).filter fun part => part ≠ []).map Step.ofPart
    slashed := cs.getLast? == some '/' }

/-- The route without the steps that stay where they are, but for a leading one. -/
def Route.plainSteps (r : Route) : List Step :=
  match r.steps with
  | .here :: rest => if r.fromRoot then rest.filter (· ≠ .here)
    else .here :: rest.filter (· ≠ .here)
  | steps => steps.filter (· ≠ .here)

/-- The path of some steps. -/
def pathOfSteps (fromRoot : Bool) (steps : List Step) : String :=
  (if fromRoot then "/" else "") ++ String.intercalate "/" (steps.map Step.text)

/-- The path and the paths of the directories around it, innermost first. The last one is the
root, or the empty path for where the walk starts. -/
def enclosingPaths (path : String) : List String :=
  let r := Route.ofPath path
  let steps := r.plainSteps
  path :: (List.range steps.length).map fun i =>
    pathOfSteps r.fromRoot (steps.take (steps.length - 1 - i))

/-- The name of the file that a path leads to, if its last step is a name. -/
def fileName? (path : String) : Option String :=
  match (Route.ofPath path).plainSteps.getLast? with
  | some (.child name) => some name
  | _ => none

end NodeDecl.Files
