import NodeDecl.CommandLine.Request
import NodeDecl.Proofs.Text.Cutting

/-! # Arguments as steps

Arguments that are accepted take a draft through some steps, one for each directory, value and
flag. An option that none of them sets can be put before them; it is then set in what they ask for.
-/

namespace NodeDecl.CommandLine
open Text

/-- What an argument does to a draft. -/
inductive Act where
  | place (value : String)
  | set (s : Setting) (value : String)
  | raise (f : Flag)
deriving DecidableEq

def Act.perform? (d : Draft) : Act → Option Draft
  | place value => d.place? value
  | set s value => d.set? value s
  | raise f => d.raise? f

def Act.performAll? (d : Draft) : List Act → Option Draft
  | [] => some d
  | a :: acts => (a.perform? d).bind fun d => performAll? d acts

/-- The steps of some arguments, or none if they are no request for a run in any draft. -/
def acts? : List String → Option (List Act)
  | [] => some []
  | arg :: rest => match Argument.ofText arg with
    | .plain value => (acts? rest).map (.place value :: ·)
    | .separator => some (rest.map .place)
    | .setting s (some value) => (acts? rest).map (.set s value :: ·)
    | .setting s none => match rest with
      | [] => none
      | next :: rest => match Argument.ofText next with
        | .plain value => (acts? rest).map (.set s value :: ·)
        | _ => none
    | .flag f => (acts? rest).map (.raise f :: ·)
    | _ => none

namespace Draft

variable {d : Draft} {i : Invocation}

/-- The steps, taken from the draft, end in a request for the run. -/
def LeadsTo (d : Draft) (acts : List Act) (i : Invocation) : Prop :=
  ∃ last, Act.performAll? d acts = some last ∧ last.request = .run i

theorem leadsTo_nil : d.LeadsTo [] i ↔ d.request = .run i := by
  simp [LeadsTo, Act.performAll?]

theorem leadsTo_cons {a : Act} {acts : List Act} :
    d.LeadsTo (a :: acts) i ↔ ∃ next, a.perform? d = some next ∧ next.LeadsTo acts i := by
  rw [LeadsTo, Act.performAll?]
  cases h : a.perform? d <;> simp [LeadsTo]

theorem readPlain_eq_run_iff {args : List String} :
    d.readPlain args = .run i ↔ d.LeadsTo (args.map .place) i := by
  induction args generalizing d with
  | nil => exact leadsTo_nil.symm
  | cons value rest ih =>
    rw [List.map_cons, leadsTo_cons, readPlain, Act.perform?]
    cases d.place? value with
    | none => simp
    | some next => simp [ih]

/-- The arguments ask for the run by steps from the draft. -/
def Asks (d : Draft) (steps? : Option (List Act)) (i : Invocation) : Prop :=
  ∃ acts, steps? = some acts ∧ d.LeadsTo acts i

theorem not_asks_none : ¬d.Asks none i := nofun

theorem asks_some {acts : List Act} : d.Asks (some acts) i ↔ d.LeadsTo acts i := by
  simp [Asks]

theorem asks_map_cons {a : Act} {steps? : Option (List Act)} :
    d.Asks (steps?.map (a :: ·)) i ↔ ∃ next, a.perform? d = some next ∧ next.Asks steps? i := by
  cases steps? <;> simp [Asks, leadsTo_cons]

theorem not_asks_map_cons {a : Act} {steps? : Option (List Act)} (h : a.perform? d = none) :
    ¬d.Asks (steps?.map (a :: ·)) i := by
  rw [asks_map_cons, h]
  simp

theorem asks_map_cons_of_some {a : Act} {next : Draft} {steps? : Option (List Act)}
    (h : a.perform? d = some next) : next.Asks steps? i ↔ d.Asks (steps?.map (a :: ·)) i := by
  rw [asks_map_cons, h]
  simp

/-- The arguments are read as a request for a run exactly if their steps ask for it. -/
theorem read_eq_run_iff {args : List String} : d.read args = .run i ↔ d.Asks (acts? args) i := by
  fun_induction Draft.read d args with
  | case1 d => rw [acts?, asks_some, leadsTo_nil]
  | case2 d arg rest value harg hplace =>
    rw [acts?, harg]
    exact iff_of_false nofun (not_asks_map_cons hplace)
  | case3 d arg rest value harg next hplace ih =>
    rw [acts?, harg, ih]
    exact asks_map_cons_of_some hplace
  | case4 d arg rest harg =>
    rw [acts?, harg, asks_some]
    exact readPlain_eq_run_iff
  | case5 d arg rest s value harg hset =>
    rw [acts?, harg]
    exact iff_of_false nofun (not_asks_map_cons hset)
  | case6 d arg rest s value harg next hset ih =>
    rw [acts?, harg, ih]
    exact asks_map_cons_of_some hset
  | case7 d arg s harg =>
    rw [acts?, harg]
    exact iff_of_false nofun not_asks_none
  | case8 d arg s harg nextArg rest value hnext hset =>
    simp only [acts?, harg, hnext]
    exact iff_of_false nofun (not_asks_map_cons hset)
  | case9 d arg s harg nextArg rest value hnext next hset ih =>
    simp only [acts?, harg, hnext, ih]
    exact asks_map_cons_of_some hset
  | case10 d arg s harg nextArg rest hnext =>
    simp only [acts?, harg]
    exact iff_of_false nofun not_asks_none
  | case11 d arg rest f harg hraise =>
    rw [acts?, harg]
    exact iff_of_false nofun (not_asks_map_cons hraise)
  | case12 d arg rest f harg next hraise ih =>
    rw [acts?, harg, ih]
    exact asks_map_cons_of_some hraise
  | case13 d arg rest harg | case14 d arg rest harg | case15 d arg rest harg =>
    rw [acts?, harg]
    exact iff_of_false nofun not_asks_none

/-- Whether the flag is up. -/
def raised (d : Draft) : Flag → Bool
  | .check => d.check
  | .print => d.print

/-- What a step writes into a draft. -/
inductive Content where
  | directory (name : String)
  | file (name : String)
  | target (t : Target)
  | flag (f : Flag)

/-- The draft with the content. -/
def put (d : Draft) : Content → Draft
  | .directory name => { d with directory? := some name }
  | .file name => { d with file? := some name }
  | .target t => { d with target? := some t }
  | .flag .check => { d with check := true }
  | .flag .print => { d with print := true }

/-- Nothing is written yet where the content goes. -/
def Free (d : Draft) : Content → Prop
  | .directory _ => d.directory? = none
  | .file _ => d.file? = none
  | .target _ => d.target? = none
  | .flag f => d.raised f = false

variable {c e : Content}

/-- What can be written after something else can be written before it, with the same result. -/
theorem put_comm (hc : d.Free c) (he : (d.put c).Free e) :
    d.Free e ∧ (d.put e).Free c ∧ (d.put e).put c = (d.put c).put e := by
  -- two contents that go to the same place are excluded, and all others leave each other alone
  rcases c with _ | _ | _ | (_ | _) <;> rcases e with _ | _ | _ | (_ | _) <;>
    first
    | exact ⟨he, hc, rfl⟩
    | cases he

theorem raised_put (d : Draft) (c : Content) (f : Flag) :
    (d.put c).raised f = true ↔ d.raised f = true ∨ c = .flag f := by
  rcases c with _ | _ | _ | (_ | _) <;> cases f <;> simp [put, raised]

end Draft

/-- What a step writes, if its value is a proper one. -/
def Act.content? : Act → Option Draft.Content
  | place value => if value = "" then none else some (.directory value)
  | set .file value => if value = "" then none else some (.file value)
  | set .target value => (Target.ofName? value).map .target
  | raise f => some (.flag f)

namespace Draft

variable {d next last : Draft} {i : Invocation} {a b : Act}

/-- A step writes its content where nothing is written yet. -/
theorem perform?_eq_some_iff : a.perform? d = some next ↔
    ∃ c, a.content? = some c ∧ d.Free c ∧ d.put c = next := by
  rcases a with value | ⟨_ | _, value⟩ | (_ | _)
  · cases hd : d.directory? <;> by_cases hv : value = "" <;>
      simp [Act.perform?, place?, Act.content?, Free, put, hd, hv]
  · cases hd : d.file? <;> by_cases hv : value = "" <;>
      simp [Act.perform?, set?, Act.content?, Free, put, hd, hv]
  · cases hd : d.target? <;> cases hv : Target.ofName? value <;>
      simp [Act.perform?, set?, Act.content?, Free, put, hd, hv]
  · cases hd : d.check <;> simp [Act.perform?, raise?, Act.content?, Free, raised, put, hd]
  · cases hd : d.print <;> simp [Act.perform?, raise?, Act.content?, Free, raised, put, hd]

/-- A step that can be taken after another one can be taken before it, with the same result. -/
theorem perform?_comm (ha : a.perform? d = some next) (hb : b.perform? next = some last) :
    ∃ first, b.perform? d = some first ∧ a.perform? first = some last := by
  obtain ⟨c, hc, hfree, rfl⟩ := perform?_eq_some_iff.mp ha
  obtain ⟨e, he, hfree', rfl⟩ := perform?_eq_some_iff.mp hb
  obtain ⟨hd, hput, hcomm⟩ := put_comm hfree hfree'
  exact ⟨d.put e, perform?_eq_some_iff.mpr ⟨e, he, hd, rfl⟩,
    perform?_eq_some_iff.mpr ⟨c, hc, hput, hcomm⟩⟩

/-- A step that can be taken after some others can be taken before them. -/
theorem performAll?_comm {acts : List Act} (h : Act.performAll? d acts = some next)
    (hb : b.perform? next = some last) :
    ∃ first, b.perform? d = some first ∧ Act.performAll? first acts = some last := by
  induction acts generalizing d with
  | nil =>
    cases h
    exact ⟨last, hb, rfl⟩
  | cons a acts ih =>
    rw [Act.performAll?] at h
    obtain ⟨second, hsecond, h⟩ := Option.bind_eq_some_iff.mp h
    obtain ⟨between, hbetween, hrest⟩ := ih h
    obtain ⟨first, hfirst, hthen⟩ := perform?_comm hsecond hbetween
    refine ⟨first, hfirst, ?_⟩
    rw [Act.performAll?, hthen]
    exact hrest

theorem content?_eq_flag_iff {f : Flag} : a.content? = some (.flag f) ↔ .raise f = a := by
  rcases a with value | ⟨_ | _, value⟩ | g
  · by_cases hv : value = "" <;> simp [Act.content?, hv]
  · by_cases hv : value = "" <;> simp [Act.content?, hv]
  · cases hv : Target.ofName? value <;> simp [Act.content?, hv]
  · simp [Act.content?, eq_comm]

theorem raised_of_perform? (h : a.perform? d = some next) (f : Flag) :
    next.raised f = true ↔ d.raised f = true ∨ .raise f = a := by
  obtain ⟨c, hc, -, rfl⟩ := perform?_eq_some_iff.mp h
  rw [raised_put, ← content?_eq_flag_iff, hc, Option.some.injEq]

/-- The flags that are up in the end are those that some step raises. -/
theorem raised_of_performAll? {acts : List Act} (h : Act.performAll? d acts = some next)
    (f : Flag) : next.raised f = true ↔ d.raised f = true ∨ .raise f ∈ acts := by
  induction acts generalizing d with
  | nil =>
    cases h
    simp
  | cons a acts ih =>
    rw [Act.performAll?] at h
    obtain ⟨second, hsecond, h⟩ := Option.bind_eq_some_iff.mp h
    rw [ih h, raised_of_perform? hsecond f, List.mem_cons, or_assoc]

theorem task?_eq_save_iff : d.task? = some .save ↔ ∀ f, d.raised f = false := by
  have hflags : (∀ f, d.raised f = false) ↔ d.check = false ∧ d.print = false :=
    ⟨fun h => ⟨h .check, h .print⟩, fun h f => match f with | .check => h.1 | .print => h.2⟩
  rw [hflags, task?]
  cases d.check <;> cases d.print <;> simp

theorem request_eq_run_iff : d.request = .run i ↔
    d.directory? = some i.directory ∧ d.file? = i.file? ∧ d.target? = i.target? ∧
      d.task? = some i.task := by
  obtain ⟨directory, file?, target?, task⟩ := i
  rw [request]
  cases d.directory? <;> cases d.task? <;> simp

end Draft

variable {args : List String} {directory file : String} {file? : Option String}
  {target? : Option Target} {task : Task}

/-- The flag is among the arguments. -/
def Raises (args : List String) (f : Flag) : Prop := ∃ acts, acts? args = some acts ∧ .raise f ∈ acts

/-- A run saves its declarations if its arguments raise no flag. -/
theorem task_eq_save_iff {i : Invocation} (h : Request.ofArguments args = .run i) :
    i.task = .save ↔ ∀ f, ¬Raises args f := by
  obtain ⟨acts, hacts, last, hlast, hrequest⟩ := Draft.read_eq_run_iff.mp h
  obtain ⟨-, -, -, htask⟩ := Draft.request_eq_run_iff.mp hrequest
  have hsave : i.task = .save ↔ last.task? = some .save := by rw [htask, Option.some.injEq]
  rw [hsave, Draft.task?_eq_save_iff]
  refine forall_congr' fun f => ?_
  have hraised := Draft.raised_of_performAll? hlast f
  have hstart : Draft.raised {} f = false := by cases f <;> rfl
  rw [hstart] at hraised
  rw [Raises, hacts, ← Bool.not_eq_true, hraised]
  simp

/-- A request to save becomes one to compare if the flag is put before its arguments. -/
theorem ofArguments_check (h : Request.ofArguments args = .run ⟨directory, file?, target?, .save⟩) :
    Request.ofArguments ("--check" :: args) = .run ⟨directory, file?, target?, .compare⟩ := by
  obtain ⟨acts, hacts, last, hlast, hrequest⟩ := Draft.read_eq_run_iff.mp h
  obtain ⟨hdirectory, hfile, htarget, htask⟩ := Draft.request_eq_run_iff.mp hrequest
  have hflags := Draft.task?_eq_save_iff.mp htask
  have hraise : (Act.raise .check).perform? last = some (last.put (.flag .check)) :=
    Draft.perform?_eq_some_iff.mpr ⟨_, rfl, hflags .check, rfl⟩
  obtain ⟨first, hfirst, hrest⟩ := Draft.performAll?_comm hlast hraise
  have harg : Argument.ofText "--check" = .flag .check := by decide +kernel
  refine Draft.read_eq_run_iff.mpr ?_
  rw [acts?, harg]
  refine Draft.asks_map_cons.mpr ⟨first, hfirst, acts, hacts, _, hrest, ?_⟩
  have hprint : last.print = false := hflags .print
  refine Draft.request_eq_run_iff.mpr ⟨hdirectory, hfile, htarget, ?_⟩
  simp [Draft.task?, Draft.put, hprint]

theorem ofText_config (file : String) :
    Argument.ofText ("--config=" ++ file) = .setting .file (some file) := by
  have htext : ("--config=" ++ file).toList =
      '-' :: '-' :: 'c' :: ("onfig".toList ++ '=' :: file.toList) := by
    rw [String.toList_append]
    rfl
  have hname : '=' ∉ "config".toList := by decide
  have hcut : cut? '=' ('c' :: ("onfig".toList ++ '=' :: file.toList)) =
      some ("config".toList, file.toList) := cut?_append hname file.toList
  rw [Argument.ofText, htext]
  simp only [hcut, String.ofList_toList]
  rfl

/-- A file can be named before arguments that name none. -/
theorem ofArguments_config (hfile : file ≠ "")
    (h : Request.ofArguments args = .run ⟨directory, none, target?, task⟩) :
    Request.ofArguments (("--config=" ++ file) :: args) =
      .run ⟨directory, some file, target?, task⟩ := by
  obtain ⟨acts, hacts, last, hlast, hrequest⟩ := Draft.read_eq_run_iff.mp h
  obtain ⟨hdirectory, hnone, htarget, htask⟩ := Draft.request_eq_run_iff.mp hrequest
  have hset : (Act.set .file file).perform? last = some (last.put (.file file)) :=
    Draft.perform?_eq_some_iff.mpr ⟨_, if_neg hfile, hnone, rfl⟩
  obtain ⟨first, hfirst, hrest⟩ := Draft.performAll?_comm hlast hset
  refine Draft.read_eq_run_iff.mpr ?_
  rw [acts?, ofText_config]
  refine Draft.asks_map_cons.mpr ⟨first, hfirst, acts, hacts, _, hrest, ?_⟩
  exact Draft.request_eq_run_iff.mpr ⟨hdirectory, rfl, htarget, htask⟩

end NodeDecl.CommandLine
