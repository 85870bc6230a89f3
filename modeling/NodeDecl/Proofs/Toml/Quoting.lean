import NodeDecl.Toml.Quoting
import NodeDecl.Toml.Unquoting

/-! # Quoted texts read back

Whichever form is chosen for a text, the text is read back from it, and so is all that follows
the closing quotes. Only a further quote must not follow: it would belong to a text over several
lines, or turn two quotes into the three that open one.
-/

namespace NodeDecl.Toml
open Text

theorem hexValue?_upperHexDigit : ∀ n < 16, hexValue? (upperHexDigit n) = some n := by decide

theorem isControl_iff {c : Char} : isControl c = true ↔
    (c.toNat < 32 ∧ c ≠ '\t' ∧ c ≠ '\n') ∨ c.toNat = 127 := by
  simp [isControl, and_assoc]

/-- A character is a control character, a line feed, or stands in a text as it is. -/
theorem isPlain_of_not_isControl {c : Char} (h : isControl c = false) (hbreak : c ≠ '\n') :
    isPlain c = true := by
  rw [← Bool.not_eq_true, isControl_iff, not_or, not_and, not_and] at h
  rcases h with ⟨hlow, hdelete⟩
  by_cases htab : c = '\t'
  · subst htab
    rfl
  · have hhigh : 32 ≤ c.toNat := Nat.le_of_not_lt fun hlt => hlow hlt htab hbreak
    simp [isPlain, hhigh, hdelete]

theorem readScalar_upperHexDigits {c : Char} (h : c.toNat < 256) (rest : List Char) :
    readScalar 4 ('0' :: '0' :: upperHexDigit (c.toNat / 16) :: upperHexDigit (c.toNat % 16) ::
      rest) = some (c, rest) := by
  have hhigh := hexValue?_upperHexDigit (c.toNat / 16) (by omega)
  have hlow := hexValue?_upperHexDigit (c.toNat % 16) (by omega)
  have hzero : hexValue? '0' = some 0 := rfl
  have hvalue : 16 * (c.toNat / 16) + c.toNat % 16 = c.toNat := Nat.div_add_mod _ _
  have hvalid : c.toNat.isValidChar := c.valid
  simp [readScalar, readHex, hhigh, hlow, hzero, hvalue, hvalid]

theorem skipContinuation?_cons {c : Char} (hspace : isSpace c = false) (hfeed : c ≠ '\n')
    (hreturn : c ≠ '\r') (rest : List Char) : skipContinuation? (c :: rest) = none := by
  rw [skipContinuation?, skipSpaces, List.dropWhile_cons_of_neg (by simp [hspace])]
  unfold dropBreak?
  split <;> simp_all

/-- A character other than a line feed is written as it is, or as an escape that is read as the
character and continues no line. -/
theorem escapeChar_cases {c : Char} (hbreak : c ≠ '\n') :
    (escapeChar c = [c] ∧ isPlain c = true ∧ c ≠ '\\') ∨
      ∃ e, escapeChar c = '\\' :: e ∧ ∀ rest, readEscape (e ++ rest) = some (c, rest) ∧
        skipContinuation? (e ++ rest) = none := by
  have hcontinues {d : Char} {e : List Char} (h : isSpace d = false ∧ d ≠ '\n' ∧ d ≠ '\r')
      (rest : List Char) : skipContinuation? (d :: e ++ rest) = none :=
    skipContinuation?_cons h.1 h.2.1 h.2.2 (e ++ rest)
  unfold escapeChar
  split
  · exact .inr ⟨['b'], rfl, fun rest => ⟨rfl, hcontinues (by decide) rest⟩⟩
  · exact .inr ⟨['t'], rfl, fun rest => ⟨rfl, hcontinues (by decide) rest⟩⟩
  · exact .inr ⟨['f'], rfl, fun rest => ⟨rfl, hcontinues (by decide) rest⟩⟩
  · exact .inr ⟨['r'], rfl, fun rest => ⟨rfl, hcontinues (by decide) rest⟩⟩
  · exact .inr ⟨['\\'], rfl, fun rest => ⟨rfl, hcontinues (by decide) rest⟩⟩
  · next hbackslash =>
    split
    · next hcontrol =>
      have hsmall : c.toNat < 256 := by
        rcases isControl_iff.mp hcontrol with ⟨hlow, -⟩ | hdelete <;> omega
      exact .inr ⟨_, rfl, fun rest => ⟨readScalar_upperHexDigits hsmall rest,
        hcontinues (by decide) rest⟩⟩
    · next hcontrol =>
      exact .inl ⟨rfl, isPlain_of_not_isControl (by simpa using hcontrol) hbreak, hbackslash⟩

theorem readBasic_escape {c : Char} {e rest : List Char} (h : readEscape e = some (c, rest)) :
    readBasic ('\\' :: e) = (readBasic rest).map fun p => (c :: p.1, p.2) := by
  rw [readBasic]
  split
  · next hnone => rw [h] at hnone; cases hnone
  · next d tail hsome =>
    rw [h] at hsome
    cases hsome
    rfl

theorem readBasic_plain {c : Char} (hplain : isPlain c = true) (hquote : c ≠ '"')
    (hbackslash : c ≠ '\\') (rest : List Char) :
    readBasic (c :: rest) = (readBasic rest).map fun p => (c :: p.1, p.2) := by
  rw [readBasic, if_pos hplain]
  · exact hquote
  · exact hbackslash

theorem escapeBasic_cons {c : Char} (hquote : c ≠ '"') (hbreak : c ≠ '\n') (s : List Char) :
    escapeBasic (c :: s) = escapeChar c ++ escapeBasic s := by
  simp [escapeBasic]

theorem readBasic_escapeBasic (s rest : List Char) :
    readBasic (escapeBasic s ++ '"' :: rest) = some (s, rest) := by
  induction s with
  | nil => simp [escapeBasic, readBasic]
  | cons c s ih =>
    by_cases hquote : c = '"'
    · subst hquote
      change readBasic ('\\' :: '"' :: (escapeBasic s ++ '"' :: rest)) = _
      rw [readBasic_escape rfl, ih]
      rfl
    · by_cases hbreak : c = '\n'
      · subst hbreak
        change readBasic ('\\' :: 'n' :: (escapeBasic s ++ '"' :: rest)) = _
        rw [readBasic_escape rfl, ih]
        rfl
      · rw [escapeBasic_cons hquote hbreak, List.append_assoc]
        rcases escapeChar_cases hbreak with ⟨he, hplain, hbackslash⟩ | ⟨e, he, hread⟩
        · rw [he, List.singleton_append, readBasic_plain hplain hquote hbackslash, ih]
          rfl
        · rw [he, List.cons_append, readBasic_escape (hread _).1, ih]
          rfl

theorem readLiteral_append {s : List Char} (hplain : ∀ c ∈ s, isPlain c = true)
    (hquote : '\'' ∉ s) (rest : List Char) : readLiteral (s ++ '\'' :: rest) = some (s, rest) := by
  induction s with
  | nil => rfl
  | cons c s ih =>
    rw [List.mem_cons, not_or] at hquote
    rw [List.cons_append, readLiteral, if_pos (hplain c List.mem_cons_self),
      ih (fun d hd => hplain d (List.mem_cons_of_mem c hd)) hquote.2]
    · rfl
    · exact Ne.symm hquote.1

theorem replicate_append_three (q : Char) (n : Nat) (rest : List Char) :
    List.replicate n q ++ q :: q :: q :: rest = q :: q :: q :: (List.replicate n q ++ rest) := by
  induction n with
  | zero => rfl
  | succ n ih => rw [List.replicate_succ, List.cons_append, List.cons_append, ih]

/-- Up to two quotes before the closing ones belong to the text. -/
theorem readExtraQuotes_replicate {q : Char} {n : Nat} (hn : n ≤ 2) {rest : List Char}
    (hrest : rest.head? ≠ some q) :
    readExtraQuotes q (List.replicate n q ++ rest) = (List.replicate n q, rest) := by
  cases rest with
  | nil =>
    match n, hn with
    | 0, _ => rfl
    | 1, _ => simp [readExtraQuotes]
    | 2, _ => simp [readExtraQuotes, List.replicate]
  | cons c rest =>
    have hc : c ≠ q := fun h => hrest (congrArg some h)
    match n, hn with
    | 0, _ => cases rest <;> simp [readExtraQuotes, hc]
    | 1, _ => simp [readExtraQuotes, hc]
    | 2, _ => simp [readExtraQuotes, List.replicate]

theorem readLongBasic_escape {c : Char} {e rest : List Char} (hread : readEscape e = some (c, rest))
    (hcontinues : skipContinuation? e = none) :
    readLongBasic ('\\' :: e) = (readLongBasic rest).map fun p => (c :: p.1, p.2) := by
  rw [readLongBasic]
  split
  · next hsome => rw [hcontinues] at hsome; cases hsome
  · split
    · next hnone => rw [hread] at hnone; cases hnone
    · next d tail hsome =>
      rw [hread] at hsome
      cases hsome
      rfl

theorem readLongBasic_plain {c : Char} {rest : List Char} (hplain : isPlain c = true ∨ c = '\n')
    (hbackslash : c ≠ '\\') (hquotes : c = '"' → ¬['"', '"'] <+: rest) :
    readLongBasic (c :: rest) = (readLongBasic rest).map fun p => (c :: p.1, p.2) := by
  rw [readLongBasic, if_pos hplain]
  · rintro tail rfl rfl
    exact hquotes rfl ⟨tail, rfl⟩
  · exact hbackslash
  · rintro tail rfl
    exact absurd hplain (by decide)

/-- What closes a text over several lines at once: up to two quotes of its own, then the three
that end it. -/
theorem readLongBasic_close {n : Nat} (hn : n ≤ 2) {rest : List Char}
    (hrest : rest.head? ≠ some '"') :
    readLongBasic (List.replicate n '"' ++ '"' :: '"' :: '"' :: rest) =
      some (List.replicate n '"', rest) := by
  rw [replicate_append_three, readLongBasic, readExtraQuotes_replicate hn hrest]

theorem escapeLongBasic_cons {c : Char} (hquote : c ≠ '"') (hbreak : c ≠ '\n') (run : Nat)
    (s : List Char) : escapeLongBasic run (c :: s) = escapeChar c ++ escapeLongBasic 0 s := by
  rw [escapeLongBasic]
  · exact hquote
  · exact hbreak

/-- What is written for a character that is no quote, or for a third quote in a row, does not
begin with a quote. -/
theorem exists_escapeLongBasic_cons {run : Nat} {c : Char} (h : c ≠ '"' ∨ run = 2) (s : List Char) :
    ∃ d tail, escapeLongBasic run (c :: s) = d :: tail ∧ d ≠ '"' := by
  by_cases hquote : c = '"'
  · subst hquote
    obtain rfl : run = 2 := h.resolve_left fun hne => hne rfl
    exact ⟨'\\', _, rfl, by decide⟩
  · by_cases hbreak : c = '\n'
    · subst hbreak
      exact ⟨'\n', _, rfl, by decide⟩
    · rw [escapeLongBasic_cons hquote hbreak]
      rcases escapeChar_cases hbreak with ⟨he, -⟩ | ⟨e, he, -⟩
      · exact ⟨c, _, by rw [he]; rfl, hquote⟩
      · exact ⟨'\\', _, by rw [he]; rfl, by decide⟩

theorem not_quotes_prefix_escapeLongBasic {run : Nat} {s : List Char} (hnil : s ≠ [])
    (hone : s = ['"'] → run = 2) (hrun : run = 1 ∨ run = 2) (rest : List Char) :
    ¬['"', '"'] <+: escapeLongBasic run s ++ rest := by
  intro hprefix
  rcases List.exists_cons_of_ne_nil hnil with ⟨c, s, rfl⟩
  by_cases hc : c ≠ '"' ∨ run = 2
  · obtain ⟨d, tail, he, hd⟩ := exists_escapeLongBasic_cons hc s
    rw [he, List.cons_append, List.cons_prefix_cons] at hprefix
    exact hd hprefix.1.symm
  · rw [not_or, Decidable.not_not] at hc
    obtain ⟨rfl, hne⟩ := hc
    obtain rfl : run = 1 := hrun.resolve_right hne
    cases s with
    | nil => exact hne (hone rfl)
    | cons e s =>
      obtain ⟨d, tail, he, hd⟩ : ∃ d tail, escapeLongBasic 2 (e :: s) = d :: tail ∧ d ≠ '"' :=
        exists_escapeLongBasic_cons (.inr rfl) s
      change ['"', '"'] <+: '"' :: (escapeLongBasic 2 (e :: s) ++ rest) at hprefix
      rw [he, List.cons_append, List.cons_prefix_cons, List.cons_prefix_cons] at hprefix
      exact hd hprefix.2.1.symm

/-- The inside of a basic text over several lines, written after `run` quotes, is read back
together with the quotes that close the text. -/
theorem readLongBasic_escapeLongBasic {run : Nat} (hrun : run ≤ 2) (s : List Char)
    {rest : List Char} (hrest : rest.head? ≠ some '"') :
    readLongBasic (escapeLongBasic run s ++ '"' :: '"' :: '"' :: rest) = some (s, rest) := by
  induction s generalizing run with
  | nil => exact readLongBasic_close (n := 0) (by omega) hrest
  | cons c s ih =>
    by_cases hquote : c = '"'
    · subst hquote
      rw [escapeLongBasic]
      split
      · rw [List.cons_append, List.cons_append, readLongBasic_escape rfl rfl, ih (by omega)]
        rfl
      · next hne =>
        by_cases hnil : s = []
        · subst hnil
          exact readLongBasic_close (n := 1) (by omega) hrest
        · by_cases hone : s = ['"'] ∧ run = 0
          · obtain ⟨rfl, rfl⟩ := hone
            exact readLongBasic_close (n := 2) (by omega) hrest
          · have htwo : s = ['"'] → run + 1 = 2 := by
              intro hs
              have hzero : run ≠ 0 := fun hz => hone ⟨hs, hz⟩
              omega
            have hquotes := not_quotes_prefix_escapeLongBasic hnil htwo (by omega)
              ('"' :: '"' :: '"' :: rest)
            rw [List.cons_append, readLongBasic_plain (.inl rfl) (by decide) fun _ => hquotes,
              ih (by omega)]
            rfl
    · by_cases hbreak : c = '\n'
      · subst hbreak
        rw [escapeLongBasic, List.cons_append, readLongBasic_plain (.inr rfl) (by decide) nofun,
          ih (by omega)]
        rfl
      · rw [escapeLongBasic_cons hquote hbreak, List.append_assoc]
        rcases escapeChar_cases hbreak with ⟨he, hplain, hbackslash⟩ | ⟨e, he, hread⟩
        · rw [he, List.singleton_append, readLongBasic_plain (.inl hplain) hbackslash
            fun h => absurd h hquote, ih (by omega)]
          rfl
        · rw [he, List.cons_append, readLongBasic_escape (hread _).1 (hread _).2,
            ih (by omega)]
          rfl

theorem longestRunFrom_cons (q : Char) (here : Nat) (c : Char) (s : List Char) :
    longestRunFrom q here (c :: s) =
      if c = q then longestRunFrom q (here + 1) s else max here (longestRunFrom q 0 s) := rfl

theorem le_longestRunFrom (q : Char) (here : Nat) (s : List Char) :
    here ≤ longestRunFrom q here s := by
  induction s generalizing here with
  | nil => exact Nat.le_refl here
  | cons c s ih =>
    rw [longestRunFrom_cons]
    split
    · exact Nat.le_of_succ_le (ih (here + 1))
    · exact Nat.le_max_left ..

theorem longestRunFrom_mono (q : Char) {here there : Nat} (h : here ≤ there) (s : List Char) :
    longestRunFrom q here s ≤ longestRunFrom q there s := by
  induction s generalizing here there with
  | nil => exact h
  | cons c s ih =>
    rw [longestRunFrom_cons, longestRunFrom_cons]
    split
    · exact ih (Nat.succ_le_succ h)
    · exact Nat.max_le.mpr ⟨Nat.le_trans h (Nat.le_max_left ..), Nat.le_max_right ..⟩

theorem longestRun_tail_le (q c : Char) (s : List Char) :
    longestRun q s ≤ longestRun q (c :: s) := by
  rw [longestRun, longestRun, longestRunFrom_cons]
  split
  · exact longestRunFrom_mono q (Nat.zero_le 1) s
  · exact Nat.le_max_right ..

theorem three_le_longestRun (q : Char) (s : List Char) : 3 ≤ longestRun q (q :: q :: q :: s) := by
  have h := le_longestRunFrom q 3 s
  simpa [longestRun, longestRunFrom_cons] using h

theorem not_mem_of_longestRun_eq_zero {q : Char} {s : List Char} (h : longestRun q s = 0) :
    q ∉ s := by
  induction s with
  | nil => exact List.not_mem_nil
  | cons c s ih =>
    have htail := longestRun_tail_le q c s
    rw [List.mem_cons, not_or]
    refine ⟨?_, ih (by omega)⟩
    rintro rfl
    have hone := le_longestRunFrom q (0 + 1) s
    rw [longestRun, longestRunFrom_cons, if_pos rfl] at h
    omega

theorem readLongLiteral_plain {c : Char} {rest : List Char} (hplain : isPlain c = true ∨ c = '\n')
    (hquotes : c = '\'' → ¬['\'', '\''] <+: rest) :
    readLongLiteral (c :: rest) = (readLongLiteral rest).map fun p => (c :: p.1, p.2) := by
  rw [readLongLiteral, if_pos hplain]
  · rintro tail rfl rfl
    exact hquotes rfl ⟨tail, rfl⟩
  · rintro tail rfl
    exact absurd hplain (by decide)

theorem readLongLiteral_close {n : Nat} (hn : n ≤ 2) {rest : List Char}
    (hrest : rest.head? ≠ some '\'') :
    readLongLiteral (List.replicate n '\'' ++ '\'' :: '\'' :: '\'' :: rest) =
      some (List.replicate n '\'', rest) := by
  rw [replicate_append_three, readLongLiteral, readExtraQuotes_replicate hn hrest]

/-- A text without control characters in which no three quotes stand in a row is read back from
the literal form over several lines. -/
theorem readLongLiteral_append {s : List Char} (hcontrols : s.any isControl = false)
    (hrun : longestRun '\'' s ≤ 2) {rest : List Char} (hrest : rest.head? ≠ some '\'') :
    readLongLiteral (s ++ '\'' :: '\'' :: '\'' :: rest) = some (s, rest) := by
  induction s with
  | nil => exact readLongLiteral_close (n := 0) (by omega) hrest
  | cons c s ih =>
    rw [List.any_cons, Bool.or_eq_false_iff] at hcontrols
    have htail := Nat.le_trans (longestRun_tail_le '\'' c s) hrun
    have hplain : isPlain c = true ∨ c = '\n' := by
      by_cases hbreak : c = '\n'
      · exact .inr hbreak
      · exact .inl (isPlain_of_not_isControl hcontrols.1 hbreak)
    by_cases hone : c :: s = ['\'']
    · rw [hone]
      exact readLongLiteral_close (n := 1) (by omega) hrest
    · by_cases htwo : c :: s = ['\'', '\'']
      · rw [htwo]
        exact readLongLiteral_close (n := 2) (by omega) hrest
      · have hquotes : c = '\'' → ¬['\'', '\''] <+: s ++ '\'' :: '\'' :: '\'' :: rest := by
          rintro rfl hprefix
          match s with
          | [] => exact hone rfl
          | [d] =>
            rw [List.cons_append, List.cons_prefix_cons] at hprefix
            exact htwo (by rw [← hprefix.1])
          | d :: e :: s =>
            rw [List.cons_append, List.cons_append, List.cons_prefix_cons,
              List.cons_prefix_cons] at hprefix
            rw [← hprefix.1, ← hprefix.2.1] at hrun
            have hthree := three_le_longestRun '\'' s
            omega
        rw [List.cons_append, readLongLiteral_plain hplain hquotes, ih hcontrols.2 htail]
        rfl

/-- What follows the opening quotes of a text over several lines is its inside: the leading line
feed that is written is the one that is dropped. -/
theorem dropLeadingBreak_append {s inside : List Char}
    (h : s.contains '\n' = false → dropBreak? inside = none) :
    dropLeadingBreak (leadingBreak s ++ inside) = inside := by
  rw [leadingBreak]
  split
  · rfl
  · next hbreak =>
    rw [dropLeadingBreak, List.nil_append, h (by simpa using hbreak)]
    rfl

theorem dropBreak?_eq_none {c : Char} {rest : List Char} (hfeed : c ≠ '\n') (hreturn : c ≠ '\r') :
    dropBreak? (c :: rest) = none := by
  unfold dropBreak?
  split <;> simp_all

/-- The conditions under which each form is chosen, as far as reading the text back needs them. -/
theorem Quoting.choose_spec (s : List Char) :
    (Quoting.choose s = .basic) ∨
    (Quoting.choose s = .literal ∧ s ≠ [] ∧ (∀ c ∈ s, isPlain c = true) ∧ '\'' ∉ s) ∨
    (Quoting.choose s = .longBasic) ∨
    (Quoting.choose s = .longLiteral ∧ s.any isControl = false ∧ longestRun '\'' s ≤ 2) := by
  unfold Quoting.choose
  simp only []
  split
  · exact .inl rfl
  · next hbasic =>
    split
    · next hliteral =>
      simp only [Bool.and_eq_true, Bool.not_eq_true', beq_iff_eq] at hliteral
      obtain ⟨⟨hcontrols, hbreak⟩, hrun⟩ := hliteral
      refine .inr (.inl ⟨rfl, ?_, ?_, not_mem_of_longestRun_eq_zero hrun⟩)
      · rintro rfl
        exact hbasic rfl
      · intro c hc
        rw [List.any_eq_false] at hcontrols
        refine isPlain_of_not_isControl (by simpa using hcontrols c hc) ?_
        rintro rfl
        rw [List.contains_eq_mem, decide_eq_false_iff_not] at hbreak
        exact hbreak hc
    · split
      · exact .inr (.inr (.inl rfl))
      · split
        · next hlong =>
          simp only [Bool.and_eq_true, Bool.not_eq_true', decide_eq_true_eq] at hlong
          exact .inr (.inr (.inr ⟨rfl, hlong⟩))
        · split
          · exact .inr (.inr (.inl rfl))
          · exact .inl rfl

theorem readText_basic {rest : List Char} (h : ¬['"', '"'] <+: rest) :
    readText ('"' :: rest) = readBasic rest := by
  unfold readText
  split <;> simp_all

theorem readText_literal {rest : List Char} (h : ¬['\'', '\''] <+: rest) :
    readText ('\'' :: rest) = readLiteral rest := by
  unfold readText
  split <;> simp_all

theorem readText_longBasic (rest : List Char) :
    readText ('"' :: '"' :: '"' :: rest) = readLongBasic (dropLeadingBreak rest) := rfl

theorem readText_longLiteral (rest : List Char) :
    readText ('\'' :: '\'' :: '\'' :: rest) = readLongLiteral (dropLeadingBreak rest) := rfl

theorem exists_escapeBasic_cons (c : Char) (s : List Char) :
    ∃ d tail, escapeBasic (c :: s) = d :: tail ∧ d ≠ '"' := by
  by_cases hquote : c = '"'
  · subst hquote
    exact ⟨'\\', _, rfl, by decide⟩
  · by_cases hbreak : c = '\n'
    · subst hbreak
      exact ⟨'\\', _, rfl, by decide⟩
    · rw [escapeBasic_cons hquote hbreak]
      rcases escapeChar_cases hbreak with ⟨he, -⟩ | ⟨e, he, -⟩
      · exact ⟨c, _, by rw [he]; rfl, hquote⟩
      · exact ⟨'\\', _, by rw [he]; rfl, by decide⟩

theorem readText_write_basic (s : List Char) {rest : List Char} (hrest : rest.head? ≠ some '"') :
    readText (Quoting.basic.write s ++ rest) = some (s, rest) := by
  change readText ('"' :: (escapeBasic s ++ ['"'] ++ rest)) = _
  rw [List.append_assoc, List.singleton_append, readText_basic, readBasic_escapeBasic]
  intro hprefix
  cases s with
  | nil =>
    obtain ⟨tail, htail⟩ := (List.cons_prefix_cons.mp hprefix).2
    exact hrest (by rw [← htail]; rfl)
  | cons c s =>
    obtain ⟨d, tail, he, hd⟩ := exists_escapeBasic_cons c s
    rw [he, List.cons_append, List.cons_prefix_cons] at hprefix
    exact hd hprefix.1.symm

theorem readText_write_literal {s : List Char} (hnil : s ≠ [])
    (hplain : ∀ c ∈ s, isPlain c = true) (hquote : '\'' ∉ s) (rest : List Char) :
    readText (Quoting.literal.write s ++ rest) = some (s, rest) := by
  change readText ('\'' :: (s ++ ['\''] ++ rest)) = _
  rw [List.append_assoc, List.singleton_append, readText_literal, readLiteral_append hplain hquote]
  intro hprefix
  obtain ⟨c, s, rfl⟩ := List.exists_cons_of_ne_nil hnil
  obtain ⟨rfl, -⟩ := List.cons_prefix_cons.mp hprefix
  exact hquote List.mem_cons_self

theorem readText_write_longBasic (s : List Char) {rest : List Char}
    (hrest : rest.head? ≠ some '"') :
    readText (Quoting.longBasic.write s ++ rest) = some (s, rest) := by
  have hopen : Quoting.longBasic.write s ++ rest = '"' :: '"' :: '"' ::
      (leadingBreak s ++ (escapeLongBasic 0 s ++ '"' :: '"' :: '"' :: rest)) := by
    simp [Quoting.write]
  rw [hopen, readText_longBasic, dropLeadingBreak_append,
    readLongBasic_escapeLongBasic (Nat.zero_le 2) s hrest]
  intro hbreak
  cases s with
  | nil => rfl
  | cons c s =>
    have hfeed : c ≠ '\n' := by
      rintro rfl
      simp at hbreak
    by_cases hquote : c = '"'
    · subst hquote
      rfl
    · rw [escapeLongBasic_cons hquote hfeed]
      rcases escapeChar_cases hfeed with ⟨he, hplain, -⟩ | ⟨e, he, -⟩
      · rw [he]
        refine dropBreak?_eq_none hfeed ?_
        rintro rfl
        cases hplain
      · rw [he]
        rfl

theorem readText_write_longLiteral {s : List Char} (hcontrols : s.any isControl = false)
    (hrun : longestRun '\'' s ≤ 2) {rest : List Char} (hrest : rest.head? ≠ some '\'') :
    readText (Quoting.longLiteral.write s ++ rest) = some (s, rest) := by
  have hopen : Quoting.longLiteral.write s ++ rest = '\'' :: '\'' :: '\'' ::
      (leadingBreak s ++ (s ++ '\'' :: '\'' :: '\'' :: rest)) := by
    simp [Quoting.write]
  rw [hopen, readText_longLiteral, dropLeadingBreak_append,
    readLongLiteral_append hcontrols hrun hrest]
  intro hbreak
  cases s with
  | nil => rfl
  | cons c s =>
    refine dropBreak?_eq_none ?_ ?_
    · rintro rfl
      simp at hbreak
    · rintro rfl
      exact absurd hcontrols (by simp [isControl])

/-- A written text is read back, and what follows it is left. -/
theorem readText_writeText (s : String) {rest : List Char} (hdouble : rest.head? ≠ some '"')
    (hsingle : rest.head? ≠ some '\'') :
    readText (writeText s ++ rest) = some (s.toList, rest) := by
  rw [writeText]
  rcases Quoting.choose_spec s.toList with h | ⟨h, hnil, hplain, hquote⟩ | h |
    ⟨h, hcontrols, hrun⟩
  · rw [h, readText_write_basic _ hdouble]
  · rw [h, readText_write_literal hnil hplain hquote]
  · rw [h, readText_write_longBasic _ hdouble]
  · rw [h, readText_write_longLiteral hcontrols hrun hsingle]

/-- A written text begins with one of the two quotes. -/
theorem head?_writeText (s : String) :
    (writeText s).head? = some '"' ∨ (writeText s).head? = some '\'' := by
  rw [writeText]
  cases Quoting.choose s.toList with
  | basic => exact .inl rfl
  | literal => exact .inr rfl
  | longBasic => exact .inl rfl
  | longLiteral => exact .inr rfl

end NodeDecl.Toml
