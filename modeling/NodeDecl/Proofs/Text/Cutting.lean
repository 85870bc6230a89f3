import NodeDecl.Text.Split

/-! # Cutting and joining

Each way of cutting a text undoes one way of putting texts together, and loses nothing: a text is
what its cut leaves on both sides of the character, and the pieces of a text join to it again.
-/

namespace NodeDecl.Text

theorem cut?_append {c : Char} {a : List Char} (h : c ∉ a) (b : List Char) :
    cut? c (a ++ c :: b) = some (a, b) := by
  induction a with
  | nil => simp [cut?]
  | cons d a ih =>
    rw [List.mem_cons, not_or] at h
    rw [List.cons_append, cut?, if_neg (Ne.symm h.1), ih h.2]
    rfl

theorem eq_append_of_cut? {c : Char} {s a b : List Char} (h : cut? c s = some (a, b)) :
    c ∉ a ∧ s = a ++ c :: b := by
  induction s generalizing a with
  | nil => cases h
  | cons d s ih =>
    rw [cut?] at h
    by_cases hd : d = c
    · rw [if_pos hd] at h
      cases h
      exact ⟨List.not_mem_nil, by rw [hd]; rfl⟩
    · rw [if_neg hd] at h
      obtain ⟨⟨a', b'⟩, hp, he⟩ := Option.map_eq_some_iff.mp h
      cases he
      obtain ⟨hn, hs⟩ := ih hp
      refine ⟨?_, by rw [hs]; rfl⟩
      rw [List.mem_cons, not_or]
      exact ⟨Ne.symm hd, hn⟩

theorem cut?_eq_none_iff {c : Char} {s : List Char} : cut? c s = none ↔ c ∉ s := by
  induction s with
  | nil => simp [cut?]
  | cons d s ih =>
    rw [cut?, List.mem_cons, not_or]
    by_cases hd : d = c
    · simp [hd]
    · simp [hd, ih, Ne.symm hd]

theorem between?_append (start stop m : List Char) :
    between? start stop (start ++ m ++ stop) = some m := by
  have hp : start.isPrefixOf (start ++ (m ++ stop)) = true :=
    List.isPrefixOf_iff_prefix.mpr (List.prefix_append _ _)
  have hs : stop.isSuffixOf (m ++ stop) = true :=
    List.isSuffixOf_iff_suffix.mpr (List.suffix_append _ _)
  simp [between?, hp, hs]

theorem between?_toList (start stop m : String) :
    between? start.toList stop.toList (start ++ m ++ stop).toList = some m.toList := by
  rw [String.toList_append, String.toList_append]
  exact between?_append _ _ _

theorem splitAt_eq_splitOn (c : Char) (s : List Char) : splitAt c s = s.splitOn c := by
  induction s with
  | nil => rfl
  | cons d s ih =>
    rw [splitAt, ih, List.splitOn_cons_eq_if_modifyHead]
    by_cases hd : d = c
    · rw [if_pos hd, if_pos (beq_iff_eq.mpr hd)]
    · rw [if_neg hd, if_neg (mt beq_iff_eq.mp hd)]
      cases h : s.splitOn c with
      | nil => exact absurd h (List.splitOn_ne_nil c s)
      | cons p ps => rfl

theorem splitAt_append {c : Char} {a : List Char} (h : c ∉ a) (s : List Char) :
    splitAt c (a ++ c :: s) = a :: splitAt c s := by
  rw [splitAt_eq_splitOn, splitAt_eq_splitOn, List.splitOn_append_cons_self_of_not_mem h]

theorem splitAt_intercalate {c : Char} {parts : List (List Char)} (hne : parts ≠ [])
    (h : ∀ part ∈ parts, c ∉ part) : splitAt c ([c].intercalate parts) = parts := by
  rw [splitAt_eq_splitOn, List.splitOn_intercalate c h hne]

theorem not_mem_of_mem_splitAt {c : Char} {s : List Char} : ∀ part ∈ splitAt c s, c ∉ part := by
  induction s with
  | nil => simp [splitAt]
  | cons d s ih =>
    rw [splitAt]
    split
    · exact List.forall_mem_cons.mpr ⟨List.not_mem_nil, ih⟩
    · next hd =>
      split
      · simpa using Ne.symm hd
      · next p ps hps =>
        rw [hps, List.forall_mem_cons] at ih
        refine List.forall_mem_cons.mpr ⟨?_, ih.2⟩
        rw [List.mem_cons, not_or]
        exact ⟨Ne.symm hd, ih.1⟩

/-- Splitting at line feeds gives back the lines, with an empty rest after the last line feed. -/
theorem splitAt_unlines {lines : List String} (h : ∀ line ∈ lines, '\n' ∉ line.toList) :
    splitAt '\n' (unlines lines).toList = lines.map String.toList ++ [[]] := by
  rw [unlines, String.toList_ofList]
  induction lines with
  | nil => rfl
  | cons line lines ih =>
    rw [List.flatMap_cons, List.append_assoc, List.singleton_append,
      splitAt_append (h line List.mem_cons_self),
      ih fun l hl => h l (List.mem_cons_of_mem _ hl)]
    rfl

/-- The comma and the space between the fields of an entry. -/
abbrev separator : List Char := [',', ' ']

theorem not_separator_infix_append {a b : List Char} (ha : ',' ∉ a) (hb : ¬ separator <:+: b) :
    ¬ separator <:+: a ++ b := by
  induction a with
  | nil => exact hb
  | cons c a ih =>
    rw [List.mem_cons, not_or] at ha
    rw [List.cons_append, List.infix_cons_iff, not_or]
    exact ⟨fun h => ha.1 (List.cons_prefix_cons.mp h).1, ih ha.2⟩

/-- A separator in two texts, of which the second holds no comma, lies in the first or across the
place where they meet. -/
theorem exists_of_separator_infix_append {a b : List Char} (ha : ¬ separator <:+: a)
    (hb : ',' ∉ b) (h : separator <:+: a ++ b) : ∃ a' b', a = a' ++ [','] ∧ b = ' ' :: b' := by
  induction a with
  | nil => exact absurd (h.subset List.mem_cons_self) hb
  | cons c a ih =>
    rw [List.infix_cons_iff, not_or] at ha
    rcases List.infix_cons_iff.mp h with hpre | hrest
    · obtain ⟨rfl, hspace⟩ := List.cons_prefix_cons.mp hpre
      cases a with
      | nil =>
        obtain ⟨b', rfl⟩ := hspace
        exact ⟨[], b', rfl, rfl⟩
      | cons d a =>
        obtain ⟨rfl, -⟩ := List.cons_prefix_cons.mp hspace
        exact absurd ⟨a, rfl⟩ ha.1
    · obtain ⟨a', b', rfl, rfl⟩ := ih ha.2 hrest
      exact ⟨c :: a', b', rfl, rfl⟩

theorem pieces_ne_nil (s : List Char) : pieces s ≠ [] := by
  fun_cases pieces s <;> simp_all

theorem pieces_cons {c : Char} {s : List Char} (h : ¬ separator <+: c :: s) :
    pieces (c :: s) = (pieces s).modifyHead (c :: ·) := by
  rw [pieces]
  · cases hs : pieces s with
    | nil => exact absurd hs (pieces_ne_nil s)
    | cons p ps => rfl
  · rintro rest rfl rfl
    exact h ⟨rest, rfl⟩

theorem pieces_append {p : List Char} (h : ¬ separator <:+: p) (s : List Char) :
    pieces (p ++ ',' :: ' ' :: s) = p :: pieces s := by
  induction p with
  | nil => rfl
  | cons c p ih =>
    rw [List.infix_cons_iff, not_or] at h
    rw [List.cons_append, pieces_cons, ih h.2]
    · rfl
    -- A separator at the start would lie in the piece.
    · intro hpre
      obtain ⟨rfl, hspace⟩ := List.cons_prefix_cons.mp hpre
      cases p with
      | nil => cases (List.cons_prefix_cons.mp hspace).1
      | cons d p =>
        obtain ⟨rfl, -⟩ := List.cons_prefix_cons.mp hspace
        exact h.1 ⟨p, rfl⟩

theorem pieces_of_not_infix {p : List Char} (h : ¬ separator <:+: p) : pieces p = [p] := by
  induction p with
  | nil => rfl
  | cons c p ih =>
    rw [List.infix_cons_iff, not_or] at h
    rw [pieces_cons h.1, ih h.2]
    rfl

theorem joinPieces_cons (p : List Char) {ps : List (List Char)} (h : ps ≠ []) :
    joinPieces (p :: ps) = p ++ ',' :: ' ' :: joinPieces ps := by
  cases ps with
  | nil => exact absurd rfl h
  | cons q qs => rfl

/-- Joined pieces are found again if no piece holds a separator. A piece may end with a comma. -/
theorem pieces_joinPieces {ps : List (List Char)} (hne : ps ≠ [])
    (h : ∀ p ∈ ps, ¬ separator <:+: p) : pieces (joinPieces ps) = ps := by
  induction ps with
  | nil => exact absurd rfl hne
  | cons p ps ih =>
    have hp := h p List.mem_cons_self
    cases ps with
    | nil => exact pieces_of_not_infix hp
    | cons q qs =>
      rw [joinPieces_cons p (List.cons_ne_nil q qs), pieces_append hp,
        ih (List.cons_ne_nil q qs) fun r hr => h r (List.mem_cons_of_mem _ hr)]

theorem joinPieces_cons_cons (c : Char) (p : List Char) (ps : List (List Char)) :
    joinPieces ((c :: p) :: ps) = c :: joinPieces (p :: ps) := by
  cases ps <;> rfl

theorem joinPieces_append_cons (a p : List Char) (ps : List (List Char)) :
    joinPieces ((a ++ p) :: ps) = a ++ joinPieces (p :: ps) := by
  induction a with
  | nil => rfl
  | cons c a ih => rw [List.cons_append, joinPieces_cons_cons, ih, List.cons_append]

theorem joinPieces_append (ps : List (List Char)) {qs : List (List Char)} (h : qs ≠ []) :
    joinPieces (ps ++ qs) = joinPieces (ps ++ [[]]) ++ joinPieces qs := by
  induction ps with
  | nil => rfl
  | cons p ps ih =>
    rw [List.cons_append, List.cons_append,
      joinPieces_cons p (List.append_ne_nil_of_right_ne_nil ps h),
      joinPieces_cons p (List.concat_ne_nil [] ps), ih, List.append_assoc, List.cons_append,
      List.cons_append]

theorem joinPieces_concat_append (ps : List (List Char)) (p s : List Char) :
    joinPieces (ps ++ [p ++ s]) = joinPieces (ps ++ [p]) ++ s := by
  rw [joinPieces_append ps (List.cons_ne_nil (p ++ s) []),
    joinPieces_append ps (List.cons_ne_nil p []), List.append_assoc]
  rfl

theorem joinPieces_concat_pair (ps : List (List Char)) (p q : List Char) :
    joinPieces (ps ++ [p, q]) = joinPieces (ps ++ [p]) ++ ',' :: ' ' :: q := by
  rw [joinPieces_append ps (List.cons_ne_nil p [q]),
    joinPieces_append ps (List.cons_ne_nil p []), List.append_assoc]
  rfl

theorem joinPieces_pieces (s : List Char) : joinPieces (pieces s) = s := by
  fun_induction pieces s with
  | case1 => rfl
  | case2 rest ih =>
    cases h : pieces rest with
    | nil => exact absurd h (pieces_ne_nil rest)
    | cons p ps => rw [joinPieces_cons [] (List.cons_ne_nil p ps), ← h, ih]; rfl
  | case3 c rest _ h => exact absurd h (pieces_ne_nil rest)
  | case4 c rest _ p ps h ih => rw [joinPieces_cons_cons, ← h, ih]

theorem not_infix_of_mem_pieces {s p : List Char} (hp : p ∈ pieces s) : ¬ separator <:+: p := by
  fun_induction pieces s generalizing p with
  | case1 => cases List.mem_singleton.mp hp; simp
  | case2 rest ih =>
    rcases List.mem_cons.mp hp with rfl | hp
    · simp
    · exact ih hp
  | case3 c rest _ h => exact absurd h (pieces_ne_nil rest)
  | case4 c rest hc q qs h ih =>
    rw [h] at ih
    rcases List.mem_cons.mp hp with rfl | hp
    · rw [List.infix_cons_iff, not_or]
      refine ⟨fun hpre => ?_, ih List.mem_cons_self⟩
      -- The piece begins as the text does, and the text does not begin with a separator.
      have hrest : q <+: rest := by
        rw [← joinPieces_pieces rest, h]
        cases qs with
        | nil => exact List.prefix_rfl
        | cons r rs => exact List.prefix_append _ _
      obtain ⟨u, hu⟩ := List.IsPrefix.trans hpre (List.cons_prefix_cons.mpr ⟨rfl, hrest⟩)
      cases hu
      exact hc u rfl rfl
    · exact ih (List.mem_cons_of_mem _ hp)

theorem mem_of_mem_joinPieces {c : Char} {p : List Char} {ps : List (List Char)} (hp : p ∈ ps)
    (hc : c ∈ p) : c ∈ joinPieces ps := by
  fun_induction joinPieces ps with
  | case1 => cases hp
  | case2 q => cases List.mem_singleton.mp hp; exact hc
  | case3 q qs _ ih =>
    rcases List.mem_cons.mp hp with rfl | hp
    · exact List.mem_append_left _ hc
    · exact List.mem_append_right _ (List.mem_cons_of_mem _ (List.mem_cons_of_mem _ (ih hp)))

/-- Joined pieces end as one of them does if none of them is empty. -/
theorem exists_getLast?_of_joinPieces {c : Char} {ps : List (List Char)}
    (hne : ∀ p ∈ ps, p ≠ []) (h : c ∈ (joinPieces ps).getLast?) : ∃ p ∈ ps, c ∈ p.getLast? := by
  fun_induction joinPieces ps with
  | case1 => cases h
  | case2 p => exact ⟨p, List.mem_cons_self, h⟩
  | case3 p ps hps ih =>
    have hrest : ∀ q ∈ ps, q ≠ [] := fun q hq => hne q (List.mem_cons_of_mem _ hq)
    have hjoin : joinPieces ps ≠ [] := by
      cases ps with
      | nil => exact absurd rfl hps
      | cons q qs =>
        obtain ⟨d, hd⟩ := List.exists_mem_of_ne_nil q (hrest q List.mem_cons_self)
        exact List.ne_nil_of_mem (mem_of_mem_joinPieces List.mem_cons_self hd)
    have hsplit : p ++ ',' :: ' ' :: joinPieces ps = p ++ separator ++ joinPieces ps := by simp
    rw [hsplit, List.getLast?_append, List.getLast?_eq_some_getLast hjoin, Option.some_or,
      ← List.getLast?_eq_some_getLast hjoin] at h
    obtain ⟨q, hq, hc⟩ := ih hrest h
    exact ⟨q, List.mem_cons_of_mem _ hq, hc⟩

end NodeDecl.Text
