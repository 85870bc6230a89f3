/-! # Cutting text

A text is cut at the first occurrence of a character, into the parts between its occurrences,
or into the pieces between the separators comma and space. These readings go from left to right
and lose nothing but what they cut at.
-/

namespace NodeDecl.Text

/-- The text before and after the first `c`. -/
def cut? (c : Char) : List Char → Option (List Char × List Char)
  | [] => none
  | d :: rest => if d = c then some ([], rest) else (cut? c rest).map fun p => (d :: p.1, p.2)

/-- The pieces between the separators `, `. A comma that no space follows belongs to its piece. -/
def pieces : List Char → List (List Char)
  | [] => [[]]
  | ',' :: ' ' :: rest => [] :: pieces rest
  | c :: rest => match pieces rest with
    | [] => [[c]]
    | p :: ps => (c :: p) :: ps

/-- The text whose pieces are given, with the separators between them. -/
def joinPieces : List (List Char) → List Char
  | [] => []
  | [p] => p
  | p :: ps => p ++ ',' :: ' ' :: joinPieces ps

/-- What stands between a beginning and an end of a text. -/
def between? (start stop s : List Char) : Option (List Char) :=
  let rest := s.drop start.length
  if start.isPrefixOf s ∧ stop.isSuffixOf rest then some (rest.take (rest.length - stop.length))
  else none

/-- The parts between the occurrences of `c`; there is always at least one. -/
def splitAt (c : Char) : List Char → List (List Char)
  | [] => [[]]
  | d :: rest => if d = c then [] :: splitAt c rest else
    match splitAt c rest with
    | [] => [[d]]
    | p :: ps => (d :: p) :: ps

/-- Each line with a line feed after it. -/
def unlines (lines : List String) : String :=
  .ofList (lines.flatMap fun line => line.toList ++ ['\n'])

end NodeDecl.Text
