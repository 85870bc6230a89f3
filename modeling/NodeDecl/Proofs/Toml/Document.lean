import NodeDecl.Proofs.Toml.Quoting
import NodeDecl.Toml.Document

/-! # Written documents read back

Texts and arrays of texts are read back as values, headers and assignments as statements, each
together with what follows it. A document that is written piece by piece is so read piece by
piece.
-/

namespace NodeDecl.Toml

theorem exists_writeText_cons (s : String) :
    ∃ q tail, writeText s = q :: tail ∧ (q = '"' ∨ q = '\'') := by
  rcases head?_writeText s with h | h <;> obtain ⟨tail, htail⟩ := List.head?_eq_some_iff.mp h
  · exact ⟨'"', tail, htail, .inl rfl⟩
  · exact ⟨'\'', tail, htail, .inr rfl⟩

/-- No further quote follows. -/
def NoQuote (rest : List Char) : Prop := rest.head? ≠ some '"' ∧ rest.head? ≠ some '\''

theorem readFlat_writeText (s : String) {rest : List Char} (h : NoQuote rest) :
    readFlat (writeText s ++ rest) = some (.text s, rest) := by
  have hread := readText_writeText s h.1 h.2
  obtain ⟨q, tail, he, hq⟩ := exists_writeText_cons s
  rw [he, List.cons_append] at hread ⊢
  rcases hq with rfl | rfl <;> rw [readFlat, hread, Option.map_some, String.ofList_toList]

theorem readValue_writeText (depth : Nat) (s : String) {rest : List Char} (h : NoQuote rest) :
    readValue depth (writeText s ++ rest) = some (.text s, rest) := by
  have hread := readFlat_writeText s h
  cases depth with
  | zero => exact hread
  | succ depth =>
    obtain ⟨q, tail, he, hq⟩ := exists_writeText_cons s
    rw [he, List.cons_append] at hread ⊢
    rcases hq with rfl | rfl <;> exact hread

theorem skipBlanks_writeText (s : String) (rest : List Char) :
    skipBlanks false (writeText s ++ rest) = writeText s ++ rest := by
  obtain ⟨q, tail, he, hq⟩ := exists_writeText_cons s
  rw [he]
  rcases hq with rfl | rfl <;> rfl

theorem skipSpaces_writeText (s : String) (rest : List Char) :
    skipSpaces (writeText s ++ rest) = writeText s ++ rest := by
  obtain ⟨q, tail, he, hq⟩ := exists_writeText_cons s
  rw [he]
  rcases hq with rfl | rfl <;> rfl

theorem head?_writeText_append_ne {c : Char} (hdouble : c ≠ '"') (hsingle : c ≠ '\'') (s : String)
    (rest : List Char) : (writeText s ++ rest).head? ≠ some c := by
  obtain ⟨q, tail, he, hq⟩ := exists_writeText_cons s
  rw [he]
  rintro ⟨rfl⟩
  exact hq.elim hdouble hsingle

section Items

variable {item : List Char → Option (Value × List Char)} {cs start rest tail : List Char}
  {v : Value}

theorem readItems_close (rest : List Char) : readItems item (']' :: rest) = some ([], rest) := by
  rw [readItems]
  rfl

theorem readItems_comma (hstart : skipBlanks false cs = start) (hopen : start.head? ≠ some ']')
    (hread : item start = some (v, rest)) (hrest : skipBlanks false rest = ',' :: tail)
    (hlength : tail.length < cs.length) :
    readItems item cs = (readItems item tail).map fun p => (v :: p.1, p.2) := by
  rw [readItems, hstart]
  split
  · exact absurd rfl hopen
  · rw [hread]
    simp only [hrest, if_pos hlength]

theorem readItems_last (hstart : skipBlanks false cs = start) (hopen : start.head? ≠ some ']')
    (hread : item start = some (v, rest)) (hrest : skipBlanks false rest = ']' :: tail) :
    readItems item cs = some ([v], tail) := by
  rw [readItems, hstart]
  split
  · exact absurd rfl hopen
  · rw [hread]
    simp only [hrest]

end Items

/-- The texts of an array that stand on a line each. -/
theorem readItems_lines (depth : Nat) (ss : List String) (rest : List Char) :
    readItems (readValue depth) ('\n' :: (ss.flatMap (fun s => "    ".toList ++ writeText s ++
      [',', '\n']) ++ ']' :: rest)) = some (ss.map .text, rest) := by
  induction ss with
  | nil =>
    rw [readItems]
    rfl
  | cons s ss ih =>
    generalize htail : ss.flatMap (fun s => "    ".toList ++ writeText s ++ [',', '\n']) ++
      ']' :: rest = tail at ih
    have hline : (s :: ss).flatMap (fun s => "    ".toList ++ writeText s ++ [',', '\n']) ++
        ']' :: rest = ' ' :: ' ' :: ' ' :: ' ' :: (writeText s ++ ',' :: '\n' :: tail) := by
      rw [← htail]
      simp
    have hstart : skipBlanks false ('\n' :: ' ' :: ' ' :: ' ' :: ' ' ::
        (writeText s ++ ',' :: '\n' :: tail)) = writeText s ++ ',' :: '\n' :: tail :=
      skipBlanks_writeText s _
    have hread : readValue depth (writeText s ++ ',' :: '\n' :: tail) =
        some (.text s, ',' :: '\n' :: tail) := readValue_writeText depth s ⟨nofun, nofun⟩
    have hopen : (writeText s ++ ',' :: '\n' :: tail).head? ≠ some ']' :=
      head?_writeText_append_ne (by decide) (by decide) s _
    rw [hline, readItems_comma hstart hopen hread rfl, ih]
    · rfl
    · simp
      omega

theorem readValue_writeTexts (depth : Nat) (ss : List String) (rest : List Char) :
    readValue (depth + 1) (writeTexts ss ++ rest) = some (.array (ss.map .text), rest) := by
  have hitems (inside : List Char) (h : readItems (readValue depth) (inside ++ ']' :: rest) =
      some (ss.map .text, rest)) : readValue (depth + 1) ('[' :: (inside ++ [']']) ++ rest) =
        some (.array (ss.map .text), rest) := by
    rw [List.cons_append, List.append_assoc, List.singleton_append, readValue, h]
    rfl
  match ss with
  | [] => exact hitems [] (readItems_close rest)
  | [s] =>
    exact hitems (writeText s) (readItems_last (skipBlanks_writeText s _)
      (head?_writeText_append_ne (by decide) (by decide) s _)
      (readValue_writeText depth s ⟨nofun, nofun⟩) rfl)
  | s :: t :: ss => exact hitems _ (readItems_lines depth (s :: t :: ss) rest)

/-- A key that is written without quotes. -/
def IsBareKey (key : String) : Prop := key ≠ "" ∧ ∀ c ∈ key.toList, isBareChar c = true

instance (key : String) : Decidable (IsBareKey key) :=
  decidable_of_iff (key ≠ "" ∧ key.toList.all isBareChar = true)
    (by rw [IsBareKey, List.all_eq_true])

theorem IsBareKey.exists_cons {key : String} (hkey : IsBareKey key) :
    ∃ c tail, key.toList = c :: tail ∧ isBareChar c = true := by
  obtain ⟨c, tail, he⟩ := List.exists_cons_of_ne_nil
    fun h => hkey.1 (String.toList_eq_nil_iff.mp h)
  exact ⟨c, tail, he, hkey.2 c (by rw [he]; exact List.mem_cons_self)⟩

theorem readKey_bare {key : String} (hkey : IsBareKey key) {rest : List Char}
    (hrest : ∀ c ∈ rest.head?, isBareChar c = false) :
    readKey (key.toList ++ rest) = some (key, rest) := by
  obtain ⟨c, tail, he, hc⟩ := hkey.exists_cons
  have hnil : key.toList ≠ [] := by
    rw [he]
    exact List.cons_ne_nil c tail
  have hhead : (key.toList ++ rest).head? = some c := by
    rw [he]
    rfl
  have htake : rest.takeWhile isBareChar = [] ∧ rest.dropWhile isBareChar = rest := by
    cases rest with
    | nil => exact ⟨rfl, rfl⟩
    | cons c rest =>
      have hc : ¬isBareChar c = true := by simp [hrest c rfl]
      exact ⟨List.takeWhile_cons_of_neg hc, List.dropWhile_cons_of_neg hc⟩
  unfold readKey
  split
  · next h =>
    rw [h] at hhead
    cases hhead
    cases hc
  · next h =>
    rw [h] at hhead
    cases hhead
    cases hc
  · simp only [List.takeWhile_append_of_pos hkey.2, List.dropWhile_append_of_pos hkey.2, htake,
      List.append_nil, if_neg hnil, String.ofList_toList]

/-- A bare key is a path of its own when no dot follows. -/
theorem readPath_bare {key : String} (hkey : IsBareKey key) {rest : List Char}
    (hrest : ∀ c ∈ rest.head?, isBareChar c = false) (hdot : (skipSpaces rest).head? ≠ some '.') :
    readPath (key.toList ++ rest) = some (⟨[], key⟩, skipSpaces rest) := by
  have hskip : skipSpaces (key.toList ++ rest) = key.toList ++ rest := by
    obtain ⟨c, tail, he, hc⟩ := hkey.exists_cons
    rw [he, List.cons_append, skipSpaces, List.dropWhile_cons_of_neg]
    intro hspace
    rw [isSpace, Bool.or_eq_true, beq_iff_eq, beq_iff_eq] at hspace
    rcases hspace with rfl | rfl <;> cases hc
  have hkeys : readKeys (key.toList ++ rest) = some (⟨[], key⟩, skipSpaces rest) := by
    rw [readKeys, hskip, readKey_bare hkey hrest]
    simp only []
    split
    · next tail h => exact absurd (by rw [h]; rfl) hdot
    · rfl
  rw [readPath, hkeys]
  rfl

/-- A line that begins with a bare key is an assignment. -/
theorem readStatement_bare {key : String} (hkey : IsBareKey key) (rest : List Char) :
    readStatement (key.toList ++ rest) = readAssignment (key.toList ++ rest) := by
  obtain ⟨c, tail, he, hc⟩ := hkey.exists_cons
  have hbracket : c ≠ '[' := by
    rintro rfl
    cases hc
  rw [he, List.cons_append]
  unfold readStatement
  split
  · next h => exact absurd (List.cons.inj h).1 hbracket
  · next h => exact absurd (List.cons.inj h).1 hbracket
  · rfl

/-- A line that sets a bare key to a value is an assignment. -/
theorem readStatement_writeAssignment {key : String} (hkey : IsBareKey key) {value rest : List Char}
    {v : Value} (hspaces : skipSpaces (value ++ '\n' :: rest) = value ++ '\n' :: rest)
    (hread : readValue (depthLimit - 1) (value ++ '\n' :: rest) = some (v, '\n' :: rest)) :
    readStatement (writeAssignment key value ++ rest) = some (.assignment ⟨[], key⟩ v, rest) := by
  have hline : writeAssignment key value ++ rest =
      key.toList ++ ' ' :: '=' :: ' ' :: (value ++ '\n' :: rest) := by
    simp [writeAssignment]
  have hpath : readPath (key.toList ++ ' ' :: '=' :: ' ' :: (value ++ '\n' :: rest)) =
      some (⟨[], key⟩, '=' :: ' ' :: (value ++ '\n' :: rest)) :=
    readPath_bare hkey (by rintro c ⟨⟩; rfl) nofun
  have hspace : skipSpaces (' ' :: (value ++ '\n' :: rest)) = value ++ '\n' :: rest := hspaces
  rw [hline, readStatement_bare hkey, readAssignment, hpath]
  simp only [hspace, hread]
  rfl

theorem readStatement_header {key : String} (hkey : IsBareKey key) (rest : List Char) :
    readStatement ('[' :: (key.toList ++ ']' :: '\n' :: rest)) =
      some (.header ⟨[], key⟩, rest) := by
  obtain ⟨c, tail, he, hc⟩ := hkey.exists_cons
  have hpath : readPath (key.toList ++ ']' :: '\n' :: rest) =
      some (⟨[], key⟩, ']' :: '\n' :: rest) :=
    readPath_bare hkey (by rintro c ⟨⟩; rfl) nofun
  have hheader : readHeader [']'] (key.toList ++ ']' :: '\n' :: rest) =
      some (⟨[], key⟩, rest) := by
    rw [readHeader, hpath]
    rfl
  rw [he, List.cons_append] at hheader ⊢
  unfold readStatement
  split
  · next h =>
    cases h
    cases hc
  · next h =>
    cases h
    rw [hheader]
    rfl
  · next h => exact absurd rfl (h _)

theorem readStatement_nil : readStatement [] = none := by
  simp [readStatement, readAssignment, readPath, readKeys, skipSpaces, readKey]

theorem readStatements_cons {cs start rest : List Char} {s : Statement}
    (hstart : skipBlanks false cs = start) (hread : readStatement start = some (s, rest))
    (hlength : rest.length < cs.length) :
    readStatements cs = (readStatements rest).map (s :: ·) := by
  rw [readStatements, hstart]
  split
  · rw [readStatement_nil] at hread
    cases hread
  · rw [hread]
    simp only [if_pos hlength]

theorem IsBareKey.skipBlanks_append {key : String} (hkey : IsBareKey key) (rest : List Char) :
    skipBlanks false (key.toList ++ rest) = key.toList ++ rest := by
  obtain ⟨c, tail, he, hc⟩ := hkey.exists_cons
  rw [he, List.cons_append]
  unfold skipBlanks
  split
  · next h => cases h
  · next h =>
    obtain ⟨rfl, -⟩ := List.cons.inj h
    cases hc
  · next h =>
    obtain ⟨rfl, -⟩ := List.cons.inj h
    cases hc
  · next d tail' h =>
    obtain ⟨rfl, rfl⟩ := List.cons.inj h
    have hspace : ¬isSpace c = true := by
      rw [isSpace, Bool.or_eq_true, beq_iff_eq, beq_iff_eq]
      rintro (rfl | rfl) <;> cases hc
    have hcomment : c ≠ '#' := by
      rintro rfl
      cases hc
    rw [if_neg Bool.false_ne_true, if_neg hspace, if_neg hcomment]

theorem readStatements_writeAssignment {key : String} (hkey : IsBareKey key)
    {value rest : List Char} {v : Value}
    (hspaces : skipSpaces (value ++ '\n' :: rest) = value ++ '\n' :: rest)
    (hread : readValue (depthLimit - 1) (value ++ '\n' :: rest) = some (v, '\n' :: rest)) :
    readStatements (writeAssignment key value ++ rest) =
      (readStatements rest).map (.assignment ⟨[], key⟩ v :: ·) := by
  refine readStatements_cons ?_ (readStatement_writeAssignment hkey hspaces hread) ?_
  · simp only [writeAssignment, List.append_assoc, hkey.skipBlanks_append]
  · simp [writeAssignment]
    omega

theorem readStatements_writeText {key : String} (hkey : IsBareKey key) (s : String)
    (rest : List Char) : readStatements (writeAssignment key (writeText s) ++ rest) =
      (readStatements rest).map (.assignment ⟨[], key⟩ (.text s) :: ·) :=
  readStatements_writeAssignment hkey (skipSpaces_writeText s _)
    (readValue_writeText _ s ⟨nofun, nofun⟩)

theorem readStatements_writeTexts {key : String} (hkey : IsBareKey key) (ss : List String)
    (rest : List Char) : readStatements (writeAssignment key (writeTexts ss) ++ rest) =
      (readStatements rest).map (.assignment ⟨[], key⟩ (.array (ss.map .text)) :: ·) := by
  refine readStatements_writeAssignment hkey ?_ (readValue_writeTexts _ ss _)
  match ss with
  | [] => rfl
  | [s] => rfl
  | s :: t :: ss => rfl

theorem readStatements_header {key : String} (hkey : IsBareKey key) (rest : List Char) :
    readStatements ('[' :: (key.toList ++ ']' :: '\n' :: rest)) =
      (readStatements rest).map (.header ⟨[], key⟩ :: ·) := by
  refine readStatements_cons rfl (readStatement_header hkey rest) ?_
  simp
  omega

/-- An empty line before a header says nothing. -/
theorem readStatements_break_header {key : String} (hkey : IsBareKey key) (rest : List Char) :
    readStatements ('\n' :: '[' :: (key.toList ++ ']' :: '\n' :: rest)) =
      (readStatements rest).map (.header ⟨[], key⟩ :: ·) := by
  refine readStatements_cons rfl (readStatement_header hkey rest) ?_
  simp
  omega

end NodeDecl.Toml
