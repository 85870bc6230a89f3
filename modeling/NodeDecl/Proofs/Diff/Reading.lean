import Mathlib.Data.List.Basic
import NodeDecl.Proofs.Diff.Lines

/-! # A patch is read back as it was meant

Numbers, ranges and headings are read back from what is written, and so are the marked lines of
each hunk. What is read from the hunks of a patch is one change for each hunk, which states the
ranges of its first and last block.
-/

namespace NodeDecl.Diff

theorem valueOfDigits_toDigits (n : Nat) : valueOfDigits (Nat.toDigits 10 n) = n := by
  have h := Nat.ofDigitChars_toDigits (b := 10) (n := n) (by decide) (by decide)
  rwa [Nat.ofDigitChars_eq_foldl] at h

theorem readNumber_append (n : Nat) {rest : List Char} (h : ∀ c ∈ rest.head?, c.isDigit = false) :
    readNumber ((toString n).toList ++ rest) = some (n, rest) := by
  have hdigit : ∀ c ∈ Nat.toDigits 10 n, c.isDigit = true := fun c hc =>
    Nat.isDigit_of_mem_toDigits (by decide) (by decide) hc
  have htake : rest.takeWhile Char.isDigit = [] := by
    cases rest with
    | nil => rfl
    | cons c rest => exact List.takeWhile_cons_of_neg (by simp [h c rfl])
  have hdrop : rest.dropWhile Char.isDigit = rest := by
    cases rest with
    | nil => rfl
    | cons c rest => exact List.dropWhile_cons_of_neg (by simp [h c rfl])
  rw [Nat.toString_eq_repr, Nat.toList_repr, readNumber, List.takeWhile_append_of_pos hdigit,
    List.dropWhile_append_of_pos hdigit, htake, hdrop, List.append_nil, if_neg Nat.toDigits_ne_nil,
    valueOfDigits_toDigits]

/-- The range of the lines from `start` up to `stop`. -/
def Range.ofBounds (start stop : Nat) : Range :=
  ⟨if stop - start = 0 then start else start + 1, stop - start⟩

@[simp]
theorem Range.before_ofBounds (start stop : Nat) : (Range.ofBounds start stop).before = start := by
  rw [ofBounds, before]
  split
  · rfl
  · rfl

theorem readRange_rangeText (start stop : Nat) (rest : List Char) :
    readRange ((rangeText start stop).toList ++ ' ' :: rest) =
      some (.ofBounds start stop, ' ' :: rest) := by
  have hspace : ∀ c ∈ (' ' :: rest).head?, c.isDigit = false := by
    rintro c ⟨⟩
    rfl
  have hcomma : ∀ s : List Char, ∀ c ∈ (',' :: s).head?, c.isDigit = false := by
    rintro s c ⟨⟩
    rfl
  rw [rangeText, Range.ofBounds]
  by_cases h1 : stop - start = 1
  · rw [if_pos h1, readRange, readNumber_append _ hspace, h1]
    rfl
  · rw [if_neg h1]
    by_cases h0 : stop - start = 0
    · have hzero : ",0".toList = ',' :: (toString 0).toList := by decide
      rw [if_pos h0, String.toList_append, List.append_assoc, hzero, List.cons_append, readRange,
        readNumber_append _ (hcomma _)]
      simp only [readNumber_append 0 hspace]
      rw [h0]
      rfl
    · have hone : ",".toList = [','] := by decide
      rw [if_neg h0, String.toList_append, String.toList_append, List.append_assoc,
        List.append_assoc, hone, List.singleton_append, readRange, readNumber_append _ (hcomma _)]
      simp only [readNumber_append (stop - start) hspace]
      rw [if_neg h0]
      rfl

/-- The heading over the ranges of two texts. -/
def headingText (a b c d : Nat) : String :=
  "@@ -" ++ rangeText a b ++ " +" ++ rangeText c d ++ " @@\n"

theorem toList_headingText (a b c d : Nat) :
    (headingText a b c d).toList = '@' :: '@' :: ' ' :: '-' :: ((rangeText a b).toList ++
      ' ' :: '+' :: ((rangeText c d).toList ++ [' ', '@', '@', '\n'])) := by
  simp [headingText]

theorem readHeading_headingText (a b c d : Nat) :
    readHeading (headingText a b c d).toList = some (.ofBounds a b, .ofBounds c d) := by
  rw [toList_headingText, readHeading, readRange_rangeText]
  simp only [readRange_rangeText]

theorem unbroken_rangeText (start stop : Nat) : Unbroken (rangeText start stop).toList := by
  have hdigits : ∀ n : Nat, Unbroken (toString n).toList := by
    intro n c hc hbreak
    rw [Nat.toString_eq_repr, Nat.toList_repr] at hc
    have hd := Nat.isDigit_of_mem_toDigits (by decide) (by decide) hc
    obtain rfl | rfl := hbreak <;> exact absurd hd (by decide)
  rw [rangeText]
  split
  · exact hdigits _
  · split
    · rw [String.toList_append]
      exact (hdigits _).append (by decide)
    · rw [String.toList_append, String.toList_append]
      exact ((hdigits _).append (by decide)).append (hdigits _)

theorem exists_headingText_eq (a b c d : Nat) :
    ∃ body, (headingText a b c d).toList = body ++ ['\n'] ∧ Unbroken body := by
  refine ⟨"@@ -".toList ++ (rangeText a b).toList ++ " +".toList ++ (rangeText c d).toList ++
    " @@".toList, ?_, ?_⟩
  · simp [headingText]
  · refine Unbroken.append (.append (.append (.append ?_ (unbroken_rangeText _ _)) ?_)
      (unbroken_rangeText _ _)) ?_ <;> decide

theorem shown_headingText (a b c d : Nat) : Shown (headingText a b c d).toList := by
  obtain ⟨body, he, hb⟩ := exists_headingText_eq a b c d
  refine ⟨⟨body, ['\n'], he, hb, .inl .lineFeed⟩, ?_⟩
  rw [toList_headingText]
  rintro c ⟨⟩
  decide

theorem endLine_headingText (a b c d : Nat) :
    endLine (headingText a b c d).toList = (headingText a b c d).toList := by
  obtain ⟨body, he, -⟩ := exists_headingText_eq a b c d
  rw [endLine, he, isEnded_append .lineFeed, if_pos rfl, List.append_nil]

def Kind.mark : Kind → Char
  | .keep => ' '
  | .delete => '-'
  | .insert => '+'

theorem Kind.ofMark?_mark (kind : Kind) : Kind.ofMark? kind.mark = some kind := by
  cases kind <;> rfl

theorem Kind.mark_ne (kind : Kind) : kind.mark ≠ '\n' ∧ kind.mark ≠ '\r' ∧ kind.mark ≠ '\\' := by
  cases kind <;> decide

/-- A line with the mark of its kind. -/
def markedLine (p : Kind × Line) : Line := p.1.mark :: p.2

theorem shown_markedLine {p : Kind × Line} (h : IsLine p.2) : Shown (markedLine p) := by
  obtain ⟨hlf, hcr, hslash⟩ := p.1.mark_ne
  refine ⟨h.cons (not_or.mpr ⟨hlf, hcr⟩), ?_⟩
  rintro c ⟨⟩
  exact ⟨hlf, hslash⟩

theorem readMarked_append (marked : List (Kind × Line)) {rest : List Line}
    (h : readMarked rest = ([], rest)) :
    readMarked (marked.map markedLine ++ rest) = (marked, rest) := by
  induction marked with
  | nil => exact h
  | cons p marked ih =>
    rw [List.map_cons, List.cons_append, markedLine, readMarked, Kind.ofMark?_mark]
    simp only [ih]

variable {old new : Array Line}

/-- The lines of a block with their kinds. -/
def Block.marked (old new : Array Line) (b : Block) : List (Kind × Line) :=
  if b.kept then (slice old b.old b.oldLength).map (Kind.keep, ·)
  else (slice old b.old b.oldLength).map (Kind.delete, ·) ++
    (slice new b.new b.newLength).map (Kind.insert, ·)

/-- The change that a hunk states: from the beginning of its first block to the end of its last,
with the lines of all. -/
def Hunk.change (old new : Array Line) (h : Hunk) : Change :=
  let first := h.head?.getD default
  let last := h.getLast?.getD default
  ⟨.ofBounds first.old last.oldEnd, .ofBounds first.new last.newEnd,
    h.flatMap (Block.marked old new)⟩

def Hunk.lines (old new : Array Line) (h : Hunk) : List Line :=
  (Hunk.heading h).toList :: (h.flatMap (Block.marked old new)).map markedLine

theorem slice_eq (lines : Array Line) (start length : Nat) :
    slice lines start length = (lines.toList.drop start).take length := by
  rw [slice, Array.toList_extract, List.extract_eq_take_drop, Nat.add_sub_cancel_left]

theorem mem_of_mem_slice {lines : Array Line} {start length : Nat} {line : Line}
    (h : line ∈ slice lines start length) : line ∈ lines.toList := by
  rw [slice_eq] at h
  exact List.mem_of_mem_drop (List.mem_of_mem_take h)

theorem Hunk.heading_eq {h : Hunk} (hne : h ≠ []) :
    Hunk.heading h = headingText (h.head?.getD default).old (h.getLast?.getD default).oldEnd
      (h.head?.getD default).new (h.getLast?.getD default).newEnd := by
  rw [heading, List.head?_eq_some_head hne, List.getLast?_eq_some_getLast hne]
  rfl

section Lines

variable (hold : ∀ line ∈ old.toList, IsLine line) (hnew : ∀ line ∈ new.toList, IsLine line)

include hold hnew

theorem isLine_of_mem_marked {b : Block} : ∀ p ∈ b.marked old new, IsLine p.2 := by
  have hslice : ∀ {lines : Array Line}, (∀ line ∈ lines.toList, IsLine line) →
      ∀ (kind : Kind) start length, ∀ p ∈ (slice lines start length).map (kind, ·), IsLine p.2 := by
    intro lines hl kind start length p hp
    obtain ⟨line, hline, rfl⟩ := List.mem_map.mp hp
    exact hl line (mem_of_mem_slice hline)
  rw [Block.marked]
  split
  · exact hslice hold _ _ _
  · exact List.forall_mem_append.mpr ⟨hslice hold _ _ _, hslice hnew _ _ _⟩

theorem Block.text_eq (b : Block) :
    Block.text old new b = (b.marked old new).flatMap fun p => endLine (markedLine p) := by
  have hmap : ∀ {lines : Array Line}, (∀ line ∈ lines.toList, IsLine line) →
      ∀ (kind : Kind) start length, (slice lines start length).flatMap (patchLine kind.mark) =
        ((slice lines start length).map (kind, ·)).flatMap fun p => endLine (markedLine p) := by
    intro lines hl kind start length
    rw [List.flatMap_map]
    exact List.flatMap_congr fun line hline =>
      patchLine_eq_endLine _ (hl line (mem_of_mem_slice hline)).ne_nil
  rw [text, marked]
  split
  · exact hmap hold .keep _ _
  · rw [List.flatMap_append]
    rw [← hmap hold, ← hmap hnew]
    rfl

theorem Hunk.text_eq {h : Hunk} (hne : h ≠ [])
    (hpos : ∀ b ∈ h, 0 < b.oldLength + b.newLength) :
    Hunk.text old new h = (Hunk.lines old new h).flatMap endLine := by
  have hsome : (h.all fun b => b.oldLength + b.newLength = 0) = false := by
    obtain ⟨b, rest, rfl⟩ := List.exists_cons_of_ne_nil hne
    rw [List.all_eq_false]
    exact ⟨b, List.mem_cons_self, by simpa using Nat.ne_of_gt (hpos b List.mem_cons_self)⟩
  rw [text, hsome, if_neg Bool.false_ne_true, lines, heading_eq hne, List.flatMap_cons,
    endLine_headingText, List.flatMap_map, List.flatMap_assoc]
  exact congrArg _ (List.flatMap_congr fun b _ => Block.text_eq hold hnew b)

theorem shown_of_mem_hunkLines {h : Hunk} (hne : h ≠ []) :
    ∀ line ∈ Hunk.lines old new h, Shown line := by
  rw [Hunk.lines, Hunk.heading_eq hne]
  refine List.forall_mem_cons.mpr ⟨shown_headingText _ _ _ _, fun line hl => ?_⟩
  obtain ⟨p, hp, rfl⟩ := List.mem_map.mp hl
  obtain ⟨b, -, hb⟩ := List.mem_flatMap.mp hp
  exact shown_markedLine (isLine_of_mem_marked hold hnew p hb)

end Lines

theorem readMarked_hunkLines {hs : List Hunk} (hne : ∀ h ∈ hs, h ≠ []) :
    readMarked (hs.flatMap (Hunk.lines old new)) = ([], hs.flatMap (Hunk.lines old new)) := by
  cases hs with
  | nil => rfl
  | cons h hs =>
    rw [List.flatMap_cons, Hunk.lines, Hunk.heading_eq (hne h List.mem_cons_self),
      toList_headingText]
    rfl

theorem readChanges_hunkLines {hs : List Hunk} (hne : ∀ h ∈ hs, h ≠ []) :
    readChanges (hs.flatMap (Hunk.lines old new)) = some (hs.map (Hunk.change old new)) := by
  induction hs with
  | nil => rw [List.flatMap_nil, readChanges]; rfl
  | cons h hs ih =>
    have hne' : ∀ h ∈ hs, h ≠ [] := fun h hh => hne h (List.mem_cons_of_mem _ hh)
    rw [List.flatMap_cons, Hunk.lines, List.cons_append, readChanges,
      Hunk.heading_eq (hne h List.mem_cons_self), readHeading_headingText,
      readMarked_append _ (readMarked_hunkLines hne')]
    simp only []
    rw [if_pos, ih hne']
    · rfl
    · rw [List.length_append]
      exact Nat.le_add_left _ _

end NodeDecl.Diff
