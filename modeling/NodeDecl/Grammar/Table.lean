import NodeDecl.Grammar.Entry

/-! # Reading a table

A table is consistent if its base name is an identifier, every entry can be read, and no
variant clashes with the base type, with a name that every generated file binds, or with an
earlier variant, by name or by tag. Reading stops at the first entry that breaks a rule.
-/

namespace NodeDecl
open Text

/-- Names that the head of a generated file binds. -/
def reservedNames : List String := ["std", "Token", "Box"]

/-- The first rule that a variant breaks when it stands after the variants `earlier`. -/
def Variant.clash? (base : String) (earlier : List Variant) (v : Variant) : Option Fault :=
  if v.name = base then some (.namedLikeBase v.name)
  else if v.name ∈ reservedNames then some (.reservedName v.name)
  else if v.name ∈ earlier.map Variant.name then some (.duplicateVariant v.name)
  else if v.tag ∈ earlier.map Variant.tag then some (.collidingTag v.tag)
  else none

/-- Reads an entry that stands after the variants `earlier`. -/
def Variant.admit (base : String) (earlier : List Variant) (entry : String) :
    Except Fault Variant :=
  match Variant.read entry with
  | .error fault => .error fault
  | .ok v => match v.clash? base earlier with
    | some fault => .error fault
    | none => .ok v

/-- The variants of the longest accepted run of entries after `earlier`, and the rejection of
the entry that ends it, if one does. -/
def Variant.readRun (base : String) (earlier : List Variant) :
    List String → List Variant × Option Rejection
  | [] => ([], none)
  | entry :: rest =>
    match Variant.admit base earlier entry with
    | .error fault => ([], some ⟨entry, fault⟩)
    | .ok v =>
      let run := Variant.readRun base (earlier ++ [v]) rest
      (v :: run.1, run.2)

/-- Reads a table: the base name is trimmed, the variants keep the order of their entries. -/
def Grammar.read (base : String) (entries : List String) : Except Rejection Grammar :=
  let name := trim base.toList
  if isName name = false then .error ⟨.ofList name, .badBase⟩
  else match Variant.readRun (.ofList name) [] entries with
    | (_, some rejection) => .error rejection
    | (variants, none) => .ok ⟨.ofList name, variants⟩

end NodeDecl
