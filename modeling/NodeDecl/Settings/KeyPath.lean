import NodeDecl.Decimal.Reading
import NodeDecl.Settings.Layer

/-! # Key paths

A key of the outermost table can be a path: names joined by dots, with positions in brackets
after them. Setting a path turns what stands in its way into tables and arrays, and fills arrays
up to the position that is set.
-/

namespace NodeDecl

inductive PathStep where
  | key (name : String)
  | position (i : Int)
deriving DecidableEq

structure KeyPath where
  first : String
  steps : List PathStep
deriving DecidableEq

namespace KeyPath

def isNameChar (c : Char) : Bool := c.isAlphanum || c == '_' || c == '-' || c == ' '

def isGap (c : Char) : Bool := c == ' ' || c == '\t'

/-- Reads a position and its closing bracket. -/
def readPosition (cs : List Char) : Option (Int × List Char) :=
  let cs := cs.dropWhile isGap
  let (negative, ds) := match cs with
    | '-' :: rest => (true, rest)
    | cs => (false, cs)
  let digits := ds.takeWhile Char.isDigit
  let i := signed negative (Binary64.ofDigits digits)
  match (ds.dropWhile Char.isDigit).dropWhile isGap with
  | ']' :: rest => if digits ≠ [] ∧ fitsInt64 i then some (i, rest) else none
  | _ => none

/-- Reads the steps after the first name. -/
def readSteps : List Char → Option (List PathStep)
  | [] => some []
  | '.' :: rest =>
    let name := rest.takeWhile isNameChar
    if name = [] then none
    else (readSteps (rest.dropWhile isNameChar)).map (.key (.ofList name) :: ·)
  | '[' :: rest => match readPosition rest with
    | none => none
    | some (i, tail) =>
      if tail.length ≤ rest.length then (readSteps tail).map (.position i :: ·) else none
  | _ => none
termination_by cs => cs.length
decreasing_by
  · exact Nat.lt_succ_of_le (List.dropWhile_sublist isNameChar).length_le
  · exact Nat.lt_succ_of_le (by assumption)

/-- The path that a key is, or the key itself if it is no path. -/
def ofKey (key : String) : KeyPath :=
  let cs := (Text.lowerCase key).toList
  let name := cs.takeWhile isNameChar
  match if name = [] then none else readSteps (cs.dropWhile isNameChar) with
  | some steps => ⟨.ofList name, steps⟩
  | none => ⟨.ofList cs, []⟩

end KeyPath

namespace Item

/-- The index of a position in a list; negative positions count from the end. -/
def indexOf (i : Int) (length : Nat) : Nat :=
  if 0 ≤ i then i.toNat else length - i.natAbs

/-- The items with enough empty ones after them for an index. -/
def padded (items : List Item) (index : Nat) : List Item :=
  items ++ List.replicate (index + 1 - items.length) (.absent none)

/-- Sets a value at the end of some steps. -/
def setAt (v : Item) : List PathStep → Item → Item
  | [], _ => v
  | [.key name], parent => merge name parent v
  | .key name :: steps, parent =>
    parent.put name (setAt v steps ((parent.get? name).getD (.absent none)))
  | .position i :: steps, parent =>
    let (origin?, items) := parent.asArray
    let index := indexOf i items.length
    let items := padded items index
    .array origin? (items.set index (setAt v steps (items.getD index (.absent none))))

/-- Sets a value at a path of the outermost table. -/
def setPath (root : Item) (p : KeyPath) (v : Item) : Item :=
  setAt v (.key p.first :: p.steps) root

/-- Sets the keys of a source. -/
def setAll (root : Item) (entries : List (String × Item)) : Item :=
  entries.foldl (fun root e => root.setPath (.ofKey e.1) e.2) root

end Item

end NodeDecl
