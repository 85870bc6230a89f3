/-! # What can be wrong with a grammar table

Each fault is one rule that an entry, or the base name, breaks. Its reason is the sentence that
is shown for it.
-/

namespace NodeDecl

inductive Fault where
  | badBase
  | noColon
  | emptyVariantName
  | badVariantName (name : String)
  | fieldWithoutColon (field : String)
  | emptyFieldName
  | badFieldName (name : String)
  | emptyFieldType (field : String)
  | duplicateField (name : String)
  | namedLikeBase (name : String)
  | reservedName (name : String)
  | duplicateVariant (name : String)
  | collidingTag (tag : String)
deriving DecidableEq

def Fault.reason : Fault → String
  | .badBase => "base type name is not an identifier"
  | .noColon => "missing `:` between variant name and fields"
  | .emptyVariantName => "empty variant name"
  | .badVariantName name => "variant name `" ++ name ++ "` is not an identifier"
  | .fieldWithoutColon field => "field `" ++ field ++ "` is missing `:` before its type"
  | .emptyFieldName => "empty field name"
  | .badFieldName name => "field name `" ++ name ++ "` is not an identifier"
  | .emptyFieldType field => "field `" ++ field ++ "` has an empty type"
  | .duplicateField name => "duplicate field `" ++ name ++ "`"
  | .namedLikeBase name => "variant `" ++ name ++ "` has the same name as the base type"
  | .reservedName name => "variant name `" ++ name ++ "` is reserved"
  | .duplicateVariant name => "duplicate variant `" ++ name ++ "`"
  | .collidingTag tag => "variant tag `" ++ tag ++ "` collides with an earlier variant"

/-- A refused text, an entry or the trimmed base name, with the first rule that it breaks. -/
structure Rejection where
  entry : String
  fault : Fault
deriving DecidableEq

end NodeDecl
