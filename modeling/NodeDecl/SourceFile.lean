import NodeDecl.Declaration.Text
import NodeDecl.Digest
import NodeDecl.Event
import NodeDecl.Grammar.Table

/-! # Generated files

A grammar and a destination determine one file: its name, its text, the number of declarations
in it, and the digest of the text. What is logged on the way is listed beside it.
-/

namespace NodeDecl
open Text

structure SourceFile where
  name : String
  text : String
  typeCount : Nat
  digest : Digest
deriving DecidableEq, Inhabited

/-- The file of declarations for a grammar. -/
def SourceFile.ofGrammar (d : Destination) (g : Grammar) : SourceFile :=
  let layout := Layout.ofGrammar d.target g
  let text := layout.text d.target d.tokenModule
  ⟨d.fileName, text, layout.typeCount, .ofText text⟩

/-- What is logged when a table is read: each variant of its longest accepted run. -/
def Grammar.readLog (base : String) (entries : List String) : List Event :=
  let name := trim base.toList
  if isName name = false then []
  else (Variant.readRun (.ofList name) [] entries).1.map fun v =>
    .variantRead v.name v.fields.length

/-- What is logged when a type is decided. -/
def Target.resolveLog (target : Target) (base type : String) : List Event :=
  if type = base then []
  else match target.respelled? type base with
    | some written => [.memberRespelled type written]
    | none => []

/-- What is logged for one member: a type that was spelled anew, one that was made indirect, or
one that nearly is the base type. -/
def Field.log (target : Target) (base variant : String) (f : Field) : List Event :=
  target.resolveLog base f.type ++
    if (target.resolve base f.type).2 then
      [.memberBoxed variant f.name (target.resolve base f.type).1]
    else if target.nearMiss base f.type then [.memberSuspicious base variant f.name f.type]
    else []

def Layout.log (target : Target) (g : Grammar) : List Event :=
  g.variants.flatMap fun v => v.fields.flatMap (Field.log target g.base v.name)

/-- What is logged while the file is made. -/
def SourceFile.log (d : Destination) (g : Grammar) : List Event :=
  Layout.log d.target g ++
    [.declarationsGenerated d.target g.variants.length (SourceFile.ofGrammar d g).digest]

end NodeDecl
