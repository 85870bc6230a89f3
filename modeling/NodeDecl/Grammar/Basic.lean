/-! # Grammar tables

A grammar is the name of a recursive base type and an ordered list of variants. A variant is
a name with an ordered list of fields, a field a name with a type. The type is kept as it was
written: nothing here looks inside it.
-/

namespace NodeDecl

structure Field where
  name : String
  type : String
deriving DecidableEq, Inhabited

structure Variant where
  name : String
  fields : List Field
deriving DecidableEq, Inhabited

/-- The lower-cased name, which labels the variant in the tagged union. Names are ASCII. -/
def Variant.tag (v : Variant) : String := .ofList (v.name.toList.map Char.toLower)

structure Grammar where
  base : String
  variants : List Variant
deriving DecidableEq, Inhabited

/-- A letter or an underscore, in ASCII. -/
def isNameStart (c : Char) : Bool := c.isAlpha || c == '_'

def isNameChar (c : Char) : Bool := c.isAlphanum || c == '_'

/-- An identifier: a letter or underscore, then letters, digits and underscores. -/
def isName : List Char → Bool
  | [] => false
  | c :: rest => isNameStart c && rest.all isNameChar

end NodeDecl
