import NodeDecl.Grammar.Basic
import NodeDecl.Grammar.Fault
import NodeDecl.Text.Blank
import NodeDecl.Text.Split

/-! # Reading one entry of a table

An entry is a line `Name : field: type, field: type`. The name ends at the first colon, the
rest is trimmed and cut at each comma followed by a space, and every segment is a field whose
name ends at its own first colon. Faults are found from left to right.
-/

namespace NodeDecl
open Text

/-- Reads one segment of the field list. -/
def Field.read (segment : List Char) : Except Fault Field :=
  match cut? ':' segment with
  | none => .error (.fieldWithoutColon (.ofList (trim segment)))
  | some (before, after) =>
    let name := trim before
    let type := trim after
    if name = [] then .error .emptyFieldName
    else if isName name = false then .error (.badFieldName (.ofList name))
    else if type = [] then .error (.emptyFieldType (.ofList name))
    else .ok ⟨.ofList name, .ofList type⟩

/-- Reads the segments in order, after the fields `earlier` whose names are taken. -/
def Field.readAll (earlier : List Field) : List (List Char) → Except Fault (List Field)
  | [] => .ok []
  | segment :: rest =>
    match Field.read segment with
    | .error fault => .error fault
    | .ok field =>
      if field.name ∈ earlier.map Field.name then .error (.duplicateField field.name)
      else match Field.readAll (earlier ++ [field]) rest with
        | .error fault => .error fault
        | .ok fields => .ok (field :: fields)

/-- Reads an entry. -/
def Variant.read (entry : String) : Except Fault Variant :=
  match cut? ':' entry.toList with
  | none => .error .noColon
  | some (before, after) =>
    let name := trim before
    if name = [] then .error .emptyVariantName
    else if isName name = false then .error (.badVariantName (.ofList name))
    else match Field.readAll [] (pieces (trim after)) with
      | .error fault => .error fault
      | .ok fields => .ok ⟨.ofList name, fields⟩

/-- Reads an entry that stands alone. A rejection quotes it as it was written. -/
def Variant.ofEntry (entry : String) : Except Rejection Variant :=
  match Variant.read entry with
  | .error fault => .error ⟨entry, fault⟩
  | .ok v => .ok v

end NodeDecl
