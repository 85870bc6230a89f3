import NodeDecl.Diff.Patch
import NodeDecl.Diff.Application

/-! # Lines are found again

A line is a text without line breaks followed by a line end, which only the last line of a text
may lack. Put after one another, the lines of a text make up the text, and a patch is split at
the ends of its own lines, whatever the lines of the two texts hold.
-/

namespace NodeDecl.Diff

theorem flatten_splitLines (s : List Char) : (splitLines s).flatten = s := by
  fun_induction splitLines s with
  | case1 => rfl
  | case2 rest ih => rw [List.flatten_cons, ih]; rfl
  | case3 c rest _ hc ih => rw [List.flatten_cons, ih]; rfl
  | case4 c rest _ hc hs ih =>
    rw [hs] at ih
    rw [← ih]
    rfl
  | case5 c rest _ hc line lines hs ih =>
    rw [hs, List.flatten_cons] at ih
    rw [List.flatten_cons, List.cons_append, ih]

/-- The text holds no line break. -/
def Unbroken (s : List Char) : Prop := ∀ c ∈ s, ¬(c = '\n' ∨ c = '\r')

instance (s : List Char) : Decidable (Unbroken s) := List.decidableBAll _ _

theorem Unbroken.append {s t : List Char} (hs : Unbroken s) (ht : Unbroken t) :
    Unbroken (s ++ t) :=
  List.forall_mem_append.mpr ⟨hs, ht⟩

inductive IsStop : List Char → Prop
  | lineFeed : IsStop ['\n']
  | carriageReturn : IsStop ['\r']
  | both : IsStop ['\r', '\n']

theorem splitLines_carriageReturn {rest : List Char} (hr : rest.head? ≠ some '\n') :
    splitLines ('\r' :: rest) = ['\r'] :: splitLines rest := by
  cases rest with
  | nil => rfl
  | cons c rest =>
    rw [splitLines]
    · rfl
    · rintro _ - he
      cases he
      exact hr rfl

theorem splitLines_cons {c : Char} (hc : ¬(c = '\n' ∨ c = '\r')) (s : List Char) :
    splitLines (c :: s) = match splitLines s with
      | [] => [[c]]
      | line :: lines => (c :: line) :: lines := by
  rewrite [splitLines, if_neg hc]
  · rfl
  · rintro _ rfl -
    exact hc (.inr rfl)

theorem splitLines_append {body stop rest : List Char} (hb : Unbroken body) (hs : IsStop stop)
    (hr : rest.head? ≠ some '\n') :
    splitLines (body ++ stop ++ rest) = (body ++ stop) :: splitLines rest := by
  induction body with
  | nil =>
    cases hs with
    | lineFeed => simp [splitLines]
    | carriageReturn => exact splitLines_carriageReturn hr
    | both => simp [splitLines]
  | cons c body ih =>
    rw [List.cons_append, List.cons_append, splitLines_cons (hb c List.mem_cons_self),
      ih fun d hd => hb d (List.mem_cons_of_mem _ hd)]

/-- A line: a text without line breaks and, after it, a line end or nothing. -/
def IsLine (line : Line) : Prop :=
  ∃ body stop, line = body ++ stop ∧ Unbroken body ∧ (IsStop stop ∨ stop = [] ∧ body ≠ [])

theorem IsLine.cons {c : Char} {line : Line} (hc : ¬(c = '\n' ∨ c = '\r')) (h : IsLine line) :
    IsLine (c :: line) := by
  obtain ⟨body, stop, rfl, hb, hs⟩ := h
  refine ⟨c :: body, stop, rfl, List.forall_mem_cons.mpr ⟨hc, hb⟩, ?_⟩
  exact hs.imp_right fun hs => ⟨hs.1, List.cons_ne_nil c body⟩

theorem isLine_of_mem_splitLines {s : List Char} : ∀ line ∈ splitLines s, IsLine line := by
  fun_induction splitLines s with
  | case1 => nofun
  | case2 rest ih =>
    exact List.forall_mem_cons.mpr ⟨⟨[], _, rfl, nofun, .inl .both⟩, ih⟩
  | case3 c rest _ hc ih =>
    refine List.forall_mem_cons.mpr ⟨⟨[], [c], rfl, nofun, .inl ?_⟩, ih⟩
    obtain rfl | rfl := hc
    · exact .lineFeed
    · exact .carriageReturn
  | case4 c rest _ hc hs ih =>
    refine List.forall_mem_singleton.mpr ⟨[c], [], rfl, List.forall_mem_singleton.mpr hc, .inr ?_⟩
    exact ⟨rfl, List.cons_ne_nil c []⟩
  | case5 c rest _ hc line lines hs ih =>
    rw [hs, List.forall_mem_cons] at ih
    exact List.forall_mem_cons.mpr ⟨ih.1.cons hc, ih.2⟩

theorem isEnded_append {body stop : List Char} (hs : IsStop stop) :
    isEnded (body ++ stop) = true := by
  cases hs <;> simp [isEnded]

theorem isEnded_of_unbroken {body : List Char} (hb : Unbroken body) : isEnded body = false := by
  rw [isEnded]
  split
  · next c hc =>
    have hn := hb c (List.mem_of_getLast? hc)
    simpa using hn
  · rfl

/-- A line as a patch shows it, with the note that it had no end. -/
def endLine (line : Line) : List Char :=
  line ++ if isEnded line then [] else '\n' :: noEndNote

theorem IsLine.ne_nil {line : Line} (h : IsLine line) : line ≠ [] := by
  obtain ⟨body, stop, rfl, -, hs | ⟨rfl, hb⟩⟩ := h
  · cases hs <;> exact List.append_ne_nil_of_right_ne_nil _ (List.cons_ne_nil _ _)
  · rwa [List.append_nil]

theorem patchLine_eq_endLine {line : Line} (mark : Char) (h : line ≠ []) :
    patchLine mark line = endLine (mark :: line) := by
  obtain ⟨c, rest, rfl⟩ := List.exists_cons_of_ne_nil h
  have he : isEnded (mark :: c :: rest) = isEnded (c :: rest) := by
    rw [isEnded, isEnded, List.getLast?_cons_cons]
  rw [patchLine, endLine, he]
  rfl

theorem noEndNote_eq : noEndNote = "\\ No newline at end of file".toList ++ ['\n'] := by decide

theorem unbroken_note : Unbroken "\\ No newline at end of file".toList := by decide

theorem head?_noEndNote : noEndNote.head? = some '\\' := by decide

theorem splitLines_endLine {line : Line} {rest : List Char} (h : IsLine line)
    (hr : rest.head? ≠ some '\n') :
    splitLines (endLine line ++ rest) =
      (if isEnded line then [line] else [line ++ ['\n'], noEndNote]) ++ splitLines rest := by
  obtain ⟨body, stop, rfl, hb, hs | ⟨rfl, -⟩⟩ := h
  · rw [endLine, if_pos (isEnded_append hs), if_pos (isEnded_append hs), List.append_nil,
      splitLines_append hb hs hr]
    rfl
  · have hr' : (noEndNote ++ rest).head? ≠ some '\n' := by
      rw [List.head?_append, head?_noEndNote, Option.some_or]
      decide
    rw [List.append_nil, endLine, isEnded_of_unbroken hb, if_neg Bool.false_ne_true,
      if_neg Bool.false_ne_true, ← List.singleton_append, ← List.append_assoc, List.append_assoc,
      splitLines_append hb .lineFeed hr', noEndNote_eq, splitLines_append unbroken_note .lineFeed hr]
    rfl

/-- A line that is not taken for a note, nor for the end of the line before it. -/
def Shown (line : Line) : Prop := IsLine line ∧ ∀ c ∈ line.head?, c ≠ '\n' ∧ c ≠ '\\'

theorem head?_flatMap_endLine {lines : List Line} (h : ∀ line ∈ lines, Shown line) :
    (lines.flatMap endLine).head? ≠ some '\n' := by
  cases lines with
  | nil => nofun
  | cons line lines =>
    obtain ⟨hl, hc⟩ := h line List.mem_cons_self
    obtain ⟨c, rest, rfl⟩ := List.exists_cons_of_ne_nil hl.ne_nil
    intro he
    exact (hc c rfl).1 (Option.some.inj he)

theorem head?_splitLines_flatMap {lines : List Line} (h : ∀ line ∈ lines, Shown line) :
    (splitLines (lines.flatMap endLine)).head? ≠ some noEndNote := by
  cases lines with
  | nil => nofun
  | cons line lines =>
    obtain ⟨hl, hc⟩ := h line List.mem_cons_self
    rw [List.flatMap_cons, splitLines_endLine hl
      (head?_flatMap_endLine fun l hl => h l (List.mem_cons_of_mem _ hl))]
    obtain ⟨c, rest, rfl⟩ := List.exists_cons_of_ne_nil hl.ne_nil
    intro he
    have hhead := congrArg (Option.bind · List.head?) he
    rw [Option.bind_some, head?_noEndNote] at hhead
    refine (hc c rfl).2 ?_
    split at hhead <;> exact Option.some.inj hhead

theorem withoutNotes_cons {line : Line} {lines : List Line} (h : lines.head? ≠ some noEndNote) :
    withoutNotes (line :: lines) = line :: withoutNotes lines := by
  cases lines with
  | nil => rfl
  | cons next lines =>
    rw [withoutNotes, if_neg]
    rintro rfl
    exact h rfl

/-- The lines of a patch are read back as they were before their notes were added. -/
theorem withoutNotes_flatMap_endLine {lines : List Line} (h : ∀ line ∈ lines, Shown line) :
    withoutNotes (splitLines (lines.flatMap endLine)) = lines := by
  induction lines with
  | nil => rfl
  | cons line lines ih =>
    have hs : ∀ line ∈ lines, Shown line := fun l hl => h l (List.mem_cons_of_mem _ hl)
    rw [List.flatMap_cons,
      splitLines_endLine (h line List.mem_cons_self).1 (head?_flatMap_endLine hs)]
    split
    · rw [List.singleton_append, withoutNotes_cons (head?_splitLines_flatMap hs), ih hs]
    · rw [List.cons_append, List.singleton_append, withoutNotes, if_pos rfl, List.dropLast_concat,
        ih hs]

end NodeDecl.Diff
