import NodeDecl.Grammar.Basic
import NodeDecl.Target.Basic
import NodeDecl.Text.Blank

/-! # Layouts

A layout is a grammar whose member types are decided for one target. A node cannot hold the
base type by value, so a member whose type is exactly the base name becomes indirect. The
comparison is textual; every other type is taken over as it is, but for a base type that the
table already wrote with a star, which some targets spell differently.
-/

namespace NodeDecl
open Text

/-- A member of a node, with the type that is written for it. -/
structure Member where
  name : String
  type : String
  boxed : Bool
deriving DecidableEq, Inhabited

structure Node where
  name : String
  tag : String
  members : List Member
deriving DecidableEq, Inhabited

structure Layout where
  base : String
  nodes : List Node
deriving DecidableEq, Inhabited

/-- The type that is written for a declared one, and whether it was made indirect here. -/
def Target.resolve (target : Target) (base type : String) : String × Bool :=
  if type = base then (target.indirect base, true)
  else match target.respelled? type base with
    | some respelled => (respelled, false)
    | none => (type, false)

/-- A type that would be the base type, or its indirect form, but for the white space in it. -/
def Target.nearMiss (target : Target) (base type : String) : Bool :=
  let compact := String.ofList (withoutBlanks type.toList)
  compact != type && (compact == base || compact == target.indirect base)

def Member.ofField (target : Target) (base : String) (f : Field) : Member :=
  ⟨f.name, (target.resolve base f.type).1, (target.resolve base f.type).2⟩

def Node.ofVariant (target : Target) (base : String) (v : Variant) : Node :=
  ⟨v.name, v.tag, v.fields.map (Member.ofField target base)⟩

/-- The layout of a grammar for one target; nodes and members keep their order. -/
def Layout.ofGrammar (target : Target) (g : Grammar) : Layout :=
  ⟨g.base, g.variants.map (Node.ofVariant target g.base)⟩

/-- The number of declarations: one struct for each node, and the union. -/
def Layout.typeCount (l : Layout) : Nat := l.nodes.length + 1

end NodeDecl
