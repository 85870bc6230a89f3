import NodeDecl.Proofs.Grammar.Rejections
import NodeDecl.Proofs.Layout.Remarks
import NodeDecl.Proofs.Output.Saving

/-! # What is logged when a file is made

The log of a table holds one event for each entry of its longest accepted beginning. If that is
the whole table, what is logged for the fields follows, in their order, and last that the
declarations were made.
-/

namespace NodeDecl
open Text

namespace Grammar

variable {base : String} {entries before : List String} {g : Grammar} {r : Rejection}

/-- What is logged for the variants that were read. -/
def variantLog (g : Grammar) : List Event :=
  g.variants.map fun v => .variantRead v.name v.fields.length

theorem readLog_of_not_isName (hname : isName (trim base.toList) = false) (entries : List String) :
    readLog base entries = [] := if_pos hname

/-- The variants that are logged are those of the accepted run. -/
theorem readLog_of_readRun {rejection? : Option Rejection}
    (hbase : g.base = .ofList (trim base.toList)) (hname : isName (trim base.toList) = true)
    (hrun : Variant.readRun g.base [] entries = (g.variants, rejection?)) :
    readLog base entries = g.variantLog := by
  rw [hbase] at hrun
  simp only [readLog, hname, Bool.true_eq_false, if_false, hrun]
  rfl

/-- Each table has a longest accepted beginning, whose variants are logged. -/
theorem exists_longest_read (hname : isName (trim base.toList) = true) (entries : List String) :
    ∃ before after g, entries = before ++ after ∧ read base before = .ok g ∧
      readLog base entries = g.variantLog ∧
      (∀ more, more <+: after → more ≠ [] → ∃ r, read base (before ++ more) = .error r) ∧
      ((∃ r, read base entries = .error r) ∨ read base entries = .ok g ∧ after = []) := by
  cases hread : read base entries with
  | ok g =>
    obtain ⟨hbase, -, hrun⟩ := read_eq_ok_iff_readRun.mp hread
    refine ⟨entries, [], g, (List.append_nil entries).symm, hread,
      readLog_of_readRun hbase hname hrun, fun more hmore hne => ?_, .inr ⟨rfl, rfl⟩⟩
    exact absurd (List.prefix_nil.mp hmore) hne
  | error r =>
    obtain ⟨before, after, g, rfl, hbefore, hbreach⟩ := (read_eq_error_iff hname).mp hread
    obtain ⟨hbase, -, hrun⟩ := read_eq_ok_iff_readRun.mp hbefore
    have hrejected : Variant.readRun g.base [] (before ++ r.entry :: after) =
        (g.variants, some r) :=
      Variant.readRun_eq_some_iff.mpr
        ⟨before, after, rfl, hrun, Variant.admit_eq_error_iff.mpr hbreach⟩
    refine ⟨before, r.entry :: after, g, rfl, hbefore, readLog_of_readRun hbase hname hrejected,
      fun more hmore hne => ⟨r, ?_⟩, .inl ⟨r, rfl⟩⟩
    obtain ⟨first, more, rfl⟩ := List.exists_cons_of_ne_nil hne
    obtain ⟨rfl, -⟩ := List.cons_prefix_cons.mp hmore
    exact (read_eq_error_iff hname).mpr ⟨before, more, g, rfl, hbefore, hbreach⟩

end Grammar

namespace Settings

variable {s : Settings} {g : Grammar} {r : Rejection}

theorem generate_of_read (h : Grammar.read s.base s.entries = .ok g) :
    s.generate = .ok (SourceFile.ofGrammar s.destination g) := by
  rw [generate, grammar, h]
  rfl

theorem generateLog_of_read (h : Grammar.read s.base s.entries = .ok g) :
    s.generateLog = Grammar.readLog s.base s.entries ++ Layout.log s.target g ++
      [.declarationsGenerated s.target g.variants.length
        (SourceFile.ofGrammar s.destination g).digest] := by
  rw [generateLog, grammar, h, List.append_assoc]
  rfl

theorem generateLog_of_error (h : Grammar.read s.base s.entries = .error r) :
    s.generateLog = Grammar.readLog s.base s.entries := by
  rw [generateLog, grammar, h, List.append_nil]

/-- Nothing is logged for a base name that is none. Otherwise the log holds the variants of the
longest accepted beginning of the table; and if that is all of it, at most one event for each field,
in order, and one for the file that is made. The event on a field tells that the member is indirect,
that a star form was spelled anew, or that a type was suspected and taken over. -/
theorem generateLog_outcome (s : Settings) :
    (isName (trim s.base.toList) = false → s.generateLog = []) ∧
    (isName (trim s.base.toList) = true → ∃ before after g, s.entries = before ++ after ∧
      Grammar.read s.base before = .ok g ∧ before.map Variant.read = g.variants.map .ok ∧
      (∀ more, more <+: after → more ≠ [] →
        ∃ r, Grammar.read s.base (before ++ more) = .error r) ∧
      ((∃ r, s.generate = .error r) ∧
          s.generateLog = g.variants.map (fun v => .variantRead v.name v.fields.length) ∨
        ∃ f, s.generate = .ok f ∧ after = [] ∧ f.typeCount = g.variants.length + 1 ∧
          s.generateLog = g.variants.map (fun v => .variantRead v.name v.fields.length) ++
            (g.variants.flatMap fun v => v.fields.filterMap (Field.remark? s.target g.base v.name)) ++
            [.declarationsGenerated s.target g.variants.length f.digest])) ∧
    ∀ t base variant (f : Field) e, f.remark? t base variant = some e ↔
      (Member.ofField t base f).boxed = true ∧
        e = .memberBoxed variant f.name (Member.ofField t base f).type ∨
      (t = .rust ∧ f.type = "*" ++ base) ∧
        e = .memberRespelled f.type (Member.ofField t base f).type ∨
      (t.nearMiss base f.type = true ∧ (Member.ofField t base f).type = f.type) ∧
        e = .memberSuspicious base variant f.name f.type := by
  refine ⟨fun hname => ?_, fun hname => ?_,
    fun t base variant f e => Field.remark?_eq_some_iff_member⟩
  · rw [generateLog_of_error (Grammar.read_of_not_isName hname),
      Grammar.readLog_of_not_isName hname]
  · obtain ⟨before, after, g, hentries, hbefore, hlog, hlongest, hend⟩ :=
      Grammar.exists_longest_read hname s.entries
    refine ⟨before, after, g, hentries, hbefore, (Grammar.read_eq_ok_iff.mp hbefore).2.1,
      hlongest, ?_⟩
    rcases hend with ⟨r, hread⟩ | ⟨hread, hafter⟩
    · refine .inl ⟨⟨r, generate_eq_error_iff.mpr hread⟩, ?_⟩
      rw [generateLog_of_error hread, hlog]
      rfl
    · refine .inr ⟨_, generate_of_read hread, hafter, ?_, ?_⟩
      · simp [SourceFile.ofGrammar, Layout.typeCount, Layout.ofGrammar]
      · rw [generateLog_of_read hread, hlog, Layout.log_eq_remarks]
        rfl

/-- Settings with a field of the base type, one of its star form, and one that is misspelled. -/
def threeWays : Settings :=
  { base := "E", entries := ["A : a: E, b: *E, c: Box< E >"], target := .rust }

/-- The grammar of these settings. -/
def threeWaysGrammar : Grammar :=
  ⟨"E", [⟨"A", [⟨"a", "E"⟩, ⟨"b", "*E"⟩, ⟨"c", "Box< E >"⟩]⟩]⟩

theorem generateLog_threeWays :
    isName (trim "9".toList) = false ∧ ({ base := "9" } : Settings).generateLog = [] ∧
      isName (trim threeWays.base.toList) = true ∧ ∃ f, threeWays.generate = .ok f ∧
        threeWays.generateLog = [.variantRead "A" 3, .memberBoxed "A" "a" "Box<E>",
          .memberRespelled "*E" "Box<E>", .memberSuspicious "E" "A" "c" "Box< E >",
          .declarationsGenerated .rust 1 f.digest] := by
  have hname : isName (trim threeWays.base.toList) = true := by decide
  have hread : Grammar.read threeWays.base threeWays.entries = .ok threeWaysGrammar := rfl
  refine ⟨by decide, (generateLog_outcome { base := "9" }).1 (by decide), hname, ?_⟩
  obtain ⟨before, after, g, hentries, hbefore, -, -, hend⟩ :=
    (generateLog_outcome threeWays).2.1 hname
  rcases hend with ⟨⟨r, hr⟩, -⟩ | ⟨f, hf, rfl, -, hlog⟩
  · rw [generate_of_read hread] at hr
    cases hr
  · rw [List.append_nil] at hentries
    rw [← hentries, hread] at hbefore
    cases hbefore
    have hremarks : (threeWaysGrammar.variants.flatMap fun v =>
        v.fields.filterMap (Field.remark? .rust "E" v.name)) = [.memberBoxed "A" "a" "Box<E>",
          .memberRespelled "*E" "Box<E>", .memberSuspicious "E" "A" "c" "Box< E >"] := by
      decide
    refine ⟨f, hf, hlog.trans ?_⟩
    change _ ++ (threeWaysGrammar.variants.flatMap fun v =>
      v.fields.filterMap (Field.remark? .rust "E" v.name)) ++ _ = _
    rw [hremarks]
    rfl

end Settings

end NodeDecl
