import NodeDecl.Text.Hexadecimal
import NodeDecl.Toml.Blank

/-! # Reading quoted text in TOML

The four forms of text are read from the character after their opening quotes. Line ends in a
text become line feeds. Of the quotes that end a text over several lines, up to two more before
the last three belong to the text.
-/

namespace NodeDecl.Toml
open Text

/-- Reads the code point of a character. -/
def readScalar (count : Nat) (cs : List Char) : Option (Char × List Char) :=
  match readHex 0 count cs with
  | none => none
  | some (n, rest) => if n.isValidChar then some (Char.ofNat n, rest) else none

/-- Reads an escape after its backslash. -/
def readEscape : List Char → Option (Char × List Char)
  | 'b' :: rest => some ('\x08', rest)
  | 't' :: rest => some ('\t', rest)
  | 'n' :: rest => some ('\n', rest)
  | 'f' :: rest => some ('\x0c', rest)
  | 'r' :: rest => some ('\r', rest)
  | '"' :: rest => some ('"', rest)
  | '\\' :: rest => some ('\\', rest)
  | 'u' :: rest => readScalar 4 rest
  | 'U' :: rest => readScalar 8 rest
  | _ => none

theorem readScalar_length {count : Nat} {c : Char} {cs rest : List Char}
    (h : readScalar count cs = some (c, rest)) : rest.length ≤ cs.length := by
  unfold readScalar at h
  split at h
  · simp at h
  · next n r hr =>
    split at h
    · simp only [Option.some.injEq, Prod.mk.injEq] at h
      exact h.2 ▸ readHex_length hr
    · simp at h

theorem readEscape_length {c : Char} {cs rest : List Char}
    (h : readEscape cs = some (c, rest)) : rest.length < cs.length := by
  unfold readEscape at h
  split at h <;> first
    | (simp only [Option.some.injEq, Prod.mk.injEq] at h
       simp [← h.2])
    | exact Nat.lt_succ_of_le (readScalar_length h)
    | simp at h

/-- Reads a basic text on one line. -/
def readBasic (cs : List Char) : Option (List Char × List Char) :=
  match cs with
  | [] => none
  | '"' :: rest => some ([], rest)
  | '\\' :: rest => match _ : readEscape rest with
    | none => none
    | some (c, rest') => (readBasic rest').map fun p => (c :: p.1, p.2)
  | c :: rest => if isPlain c then (readBasic rest).map fun p => (c :: p.1, p.2) else none
termination_by cs.length
decreasing_by
  · have := readEscape_length ‹readEscape rest = _›
    simp only [List.length_cons]
    omega
  · simp

/-- Reads a literal text on one line. -/
def readLiteral : List Char → Option (List Char × List Char)
  | [] => none
  | '\'' :: rest => some ([], rest)
  | c :: rest => if isPlain c then (readLiteral rest).map fun p => (c :: p.1, p.2) else none

/-- Up to two quotes, after the three that end a text. -/
def readExtraQuotes (q : Char) : List Char → List Char × List Char
  | a :: b :: rest =>
    if a = q then if b = q then ([q, q], rest) else ([q], b :: rest) else ([], a :: b :: rest)
  | [a] => if a = q then ([q], []) else ([], [a])
  | [] => ([], [])

/-- The rest after a backslash that ends its line, with the blank lines after it. -/
def skipContinuation? (cs : List Char) : Option (List Char) :=
  (dropBreak? (skipSpaces cs)).map skipLayout

theorem dropBreak?_length {cs rest : List Char} (h : dropBreak? cs = some rest) :
    rest.length ≤ cs.length := by
  unfold dropBreak? at h
  split at h
  · cases h
    exact Nat.le_add_right _ 1
  · cases h
    exact Nat.le_add_right _ 2
  · cases h

theorem skipLayout_length (cs : List Char) : (skipLayout cs).length ≤ cs.length := by
  fun_induction skipLayout cs <;> simp_all <;> omega

theorem skipContinuation?_length {cs rest : List Char} (h : skipContinuation? cs = some rest) :
    rest.length ≤ cs.length := by
  obtain ⟨mid, hmid, rfl⟩ := Option.map_eq_some_iff.1 h
  exact Nat.le_trans (skipLayout_length mid) (Nat.le_trans (dropBreak?_length hmid)
    (List.dropWhile_sublist _).length_le)

/-- Reads a basic text over several lines. -/
def readLongBasic (cs : List Char) : Option (List Char × List Char) :=
  match cs with
  | [] => none
  | '"' :: '"' :: '"' :: rest => some (readExtraQuotes '"' rest)
  | '\\' :: rest => match _ : skipContinuation? rest with
    | some rest' => readLongBasic rest'
    | none => match _ : readEscape rest with
      | none => none
      | some (c, rest') => (readLongBasic rest').map fun p => (c :: p.1, p.2)
  | '\r' :: '\n' :: rest => (readLongBasic rest).map fun p => ('\n' :: p.1, p.2)
  | c :: rest =>
    if isPlain c ∨ c = '\n' then (readLongBasic rest).map fun p => (c :: p.1, p.2) else none
termination_by cs.length
decreasing_by
  · have := skipContinuation?_length ‹skipContinuation? rest = _›
    simp only [List.length_cons]
    omega
  · have := readEscape_length ‹readEscape rest = _›
    simp only [List.length_cons]
    omega
  all_goals
    simp only [List.length_cons]
    omega

/-- Reads a literal text over several lines. -/
def readLongLiteral : List Char → Option (List Char × List Char)
  | [] => none
  | '\'' :: '\'' :: '\'' :: rest => some (readExtraQuotes '\'' rest)
  | '\r' :: '\n' :: rest => (readLongLiteral rest).map fun p => ('\n' :: p.1, p.2)
  | c :: rest =>
    if isPlain c ∨ c = '\n' then (readLongLiteral rest).map fun p => (c :: p.1, p.2) else none

/-- Drops the line end after opening quotes, which is not part of the text. -/
def dropLeadingBreak (cs : List Char) : List Char := (dropBreak? cs).getD cs

/-- Reads a text in any of its forms. -/
def readText : List Char → Option (List Char × List Char)
  | '"' :: '"' :: '"' :: rest => readLongBasic (dropLeadingBreak rest)
  | '"' :: rest => readBasic rest
  | '\'' :: '\'' :: '\'' :: rest => readLongLiteral (dropLeadingBreak rest)
  | '\'' :: rest => readLiteral rest
  | _ => none

end NodeDecl.Toml
