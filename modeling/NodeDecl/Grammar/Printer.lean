import NodeDecl.Grammar.Basic
import NodeDecl.Text.Split

/-! # Writing entries

A variant is written as the entry that reads as it. White space may be added where reading trims
it; how much stands at each place is a margin.
-/

namespace NodeDecl
open Text

/-- White space before a name, between the name and its colon, and after the colon. -/
structure Margin where
  before : List Char
  after : List Char
  inner : List Char

namespace Margin

/-- A name with its margin, up to the text after the colon. -/
def label (m : Margin) (name : String) : List Char :=
  m.before ++ name.toList ++ m.after ++ ':' :: m.inner

/-- The margin of a field if no white space is added. -/
def ofField : Margin := ⟨[], [], [' ']⟩

/-- The margin of a variant if no white space is added. -/
def ofVariant : Margin := ⟨[], [' '], [' ']⟩

end Margin

/-- A field with a margin. -/
def Field.segment (m : Margin) (f : Field) : List Char := m.label f.name ++ f.type.toList

/-- A variant with margins for its name and its fields, and white space after the last type. -/
def Variant.entryWith (m : Margin) (ms : List Margin) (ending : List Char) (v : Variant) :
    List Char :=
  m.label v.name ++ joinPieces (List.zipWith Field.segment ms v.fields) ++ ending

/-- The entry of a variant. -/
def Variant.entry (v : Variant) : String :=
  .ofList (v.entryWith .ofVariant (v.fields.map fun _ => .ofField) [])

end NodeDecl
