import NodeDecl.Proofs.Toml.Document
import NodeDecl.Settings.Document

/-! # Settings in writing

The document of some settings is read as the two tables that it shows, and from these the same
settings are read again, whatever their texts hold.
-/

namespace NodeDecl.Settings
open Toml

/-- The entry of a key that may be left out. -/
def optionalEntry (key : String) (value? : Option String) : List (String × Value) :=
  value?.toList.map fun s => (key, .text s)

/-- The table that the document of some settings shows. -/
def writtenTable (s : Settings) : List (String × Value) :=
  [("grammar", .table [("base_name", .text s.base), ("variants", .array (s.entries.map .text))]),
   ("output", .table (("target", .text s.target.name) ::
      (optionalEntry "file_name" s.fileName? ++ optionalEntry "token_module" s.tokenModule?)))]

/-- The statements of the document, in order. -/
def writtenStatements (s : Settings) : List Statement :=
  [.header ⟨[], "grammar"⟩, .assignment ⟨[], "base_name"⟩ (.text s.base),
   .assignment ⟨[], "variants"⟩ (.array (s.entries.map .text)), .header ⟨[], "output"⟩,
   .assignment ⟨[], "target"⟩ (.text s.target.name)] ++
    (optionalEntry "file_name" s.fileName? ++
      optionalEntry "token_module" s.tokenModule?).map fun e => .assignment ⟨[], e.1⟩ e.2

theorem readStatements_writeOptional {key : String} (hkey : IsBareKey key) (value? : Option String)
    (rest : List Char) : readStatements (writeOptional key value? ++ rest) =
      (readStatements rest).map
        ((optionalEntry key value?).map (fun e => .assignment ⟨[], e.1⟩ e.2) ++ ·) := by
  cases value? with
  | none => simp [writeOptional, optionalEntry]
  | some s => exact readStatements_writeText hkey s rest

theorem readStatements_document (s : Settings) :
    readStatements s.document = some s.writtenStatements := by
  have hgrammar (rest : List Char) : readStatements ("[grammar]\n".toList ++ rest) =
      (readStatements rest).map (.header ⟨[], "grammar"⟩ :: ·) := by
    have hline : "[grammar]\n".toList ++ rest =
        '[' :: ("grammar".toList ++ ']' :: '\n' :: rest) := rfl
    rw [hline, readStatements_header (by decide)]
  have houtput (rest : List Char) : readStatements ("\n[output]\n".toList ++ rest) =
      (readStatements rest).map (.header ⟨[], "output"⟩ :: ·) := by
    have hline : "\n[output]\n".toList ++ rest =
        '\n' :: '[' :: ("output".toList ++ ']' :: '\n' :: rest) := rfl
    rw [hline, readStatements_break_header (by decide)]
  have hend : readStatements (writeOptional "token_module" s.tokenModule?) =
      (readStatements []).map ((optionalEntry "token_module" s.tokenModule?).map
        (fun e => .assignment ⟨[], e.1⟩ e.2) ++ ·) := by
    rw [← readStatements_writeOptional (by decide), List.append_nil]
  have hnil : readStatements [] = some [] := by
    rw [readStatements]
    rfl
  have hassoc (a b c d e f g : List Char) :
      a ++ b ++ c ++ d ++ e ++ f ++ g = a ++ (b ++ (c ++ (d ++ (e ++ (f ++ g))))) := by
    simp only [List.append_assoc]
  -- not by unfolding: that would take the texts of the document apart
  have hdocument : s.document = "[grammar]\n".toList ++
      (writeAssignment "base_name" (writeText s.base) ++
        (writeAssignment "variants" (writeTexts s.entries) ++ ("\n[output]\n".toList ++
          (writeAssignment "target" (writeText s.target.name) ++
            (writeOptional "file_name" s.fileName? ++
              writeOptional "token_module" s.tokenModule?))))) := hassoc _ _ _ _ _ _ _
  have hbase : IsBareKey "base_name" := by decide
  have hentries : IsBareKey "variants" := by decide
  have htarget : IsBareKey "target" := by decide
  have hfile : IsBareKey "file_name" := by decide
  rw [hdocument, hgrammar, readStatements_writeText hbase,
    readStatements_writeTexts hentries, houtput, readStatements_writeText htarget,
    readStatements_writeOptional hfile, hend, hnil]
  simp [writtenStatements]

theorem readDocument_document (s : Settings) : readDocument s.document = some s.writtenTable := by
  have hmark : dropByteOrderMark s.document = s.document := rfl
  rw [readDocument, hmark, readStatements_document]
  obtain ⟨base, entries, target, fileName?, tokenModule?⟩ := s
  cases fileName? <;> cases tokenModule? <;> rfl

/-- What is mapped one by one is read back one by one. -/
theorem mapM_map_of_some {α β : Type} {f : β → Option α} {g : α → β} (h : ∀ a, f (g a) = some a)
    (as : List α) : (as.map g).mapM f = some as := by
  induction as with
  | nil => rfl
  | cons a as ih =>
    rw [List.map_cons, List.mapM_cons, h, ih]
    rfl

theorem ofTable?_writtenTable (s : Settings) : ofTable? (.table s.writtenTable) = some s := by
  obtain ⟨base, entries, target, fileName?, tokenModule?⟩ := s
  generalize hoptional : optionalEntry "file_name" fileName? ++
    optionalEntry "token_module" tokenModule? = optional
  have hgrammar :
      (Value.table (writtenTable ⟨base, entries, target, fileName?, tokenModule?⟩)).sectionOf?
        "grammar" =
          some (.table [("base_name", .text base), ("variants", .array (entries.map .text))]) := rfl
  have houtput :
      (Value.table (writtenTable ⟨base, entries, target, fileName?, tokenModule?⟩)).sectionOf?
        "output" = some (.table (("target", .text target.name) :: optional)) := by
    rw [← hoptional]
    rfl
  have htexts : (entries.map Value.text).mapM Value.asText? = some entries :=
    mapM_map_of_some (f := Value.asText?) (g := Value.text) (fun _ => rfl) entries
  have hentries : (Value.table [("base_name", .text base),
      ("variants", .array (entries.map .text))]).textsOf? "variants" = some (some entries) :=
    congrArg (Option.map some) htexts
  have hfile : (Value.table (("target", .text target.name) :: optional)).textOf? "file_name" =
      some fileName? := by
    rw [← hoptional]
    cases fileName? <;> cases tokenModule? <;> rfl
  have htoken : (Value.table (("target", .text target.name) :: optional)).textOf? "token_module" =
      some tokenModule? := by
    rw [← hoptional]
    cases fileName? <;> cases tokenModule? <;> rfl
  have hname : Target.ofName? target.name = some target := by cases target <;> rfl
  rw [ofTable?]
  simp only [hgrammar, houtput, Option.bind_eq_bind, Option.bind_some, hentries, hfile, htoken]
  simp [Value.textOf?, Value.get?, Value.asText?, hname]

/-- The document of any settings is read as exactly these settings. -/
theorem ofToml?_toToml (s : Settings) : ofToml? s.toToml = some s := by
  rw [ofToml?, toToml, String.toList_ofList, readDocument_document]
  exact ofTable?_writtenTable s

end NodeDecl.Settings
