import UiScript.Host.Memory
import UiScript.Proofs.Compile
import UiScript.Proofs.Files.Saving
import UiScript.Proofs.Page
import UiScript.Proofs.Syntax.Ending
import UiScript.Site.Build

/-!
# Building one source

What comes of a source is told by the text that its path leads to: a page, a report, or an end of
everything. The last only happens to an integer of more than 4300 digits.
-/

namespace UiScript

/-! ### Faults of a source -/

/-- A source that does not compile has wrong types or cannot be read. -/
lemma fault_of_compile {text file : String} {options : Compile.Options} {fault : CompileFault}
    (h : compile text file options = .error fault) :
    (∃ ds, fault = .typing ds) ∨
      ∃ f, fault = .grammar f ∧ Program.parse text file = .error f := by
  rw [compile_eq] at h
  cases hparse : Program.parse text file with
  | error f =>
    rw [hparse] at h
    exact .inr ⟨f, (Except.error.inj h).symm, rfl⟩
  | ok =>
    rw [hparse] at h
    obtain ⟨page, hpage⟩ := Script.toPage_of_grammatical (Syntax.grammatical_of_parse hparse)
      options.title
    dsimp only [Compile.finished] at h
    split at h
    · exact .inl ⟨_, (Except.error.inj h).symm⟩
    · rw [hpage] at h
      cases h

/-! ### Runs on a host in memory -/

namespace Run

variable {α β : Type} {s t : Memory}

lemma state_bind {x : StateM Memory α} {f : α → StateM Memory β} {a : α} (h : x.run s = (a, t)) :
    (x >>= f).run s = (f a).run t := by
  rw [StateT.run_bind, h]
  rfl

lemma bind_ok {x : Run (StateM Memory) α} {f : α → Run (StateM Memory) β} {a : α}
    (h : x.run.run s = (.ok a, t)) : (x >>= f).run.run s = (f a).run.run t := by
  rw [ExceptT.run_bind, StateT.run_bind, h]
  rfl

lemma bind_error {x : Run (StateM Memory) α} {f : α → Run (StateM Memory) β} {e : Abort}
    (h : x.run.run s = (.error e, t)) : (x >>= f).run.run s = (.error e, t) := by
  rw [ExceptT.run_bind, StateT.run_bind, h]
  rfl

lemma bind_pure (x : Run (StateM Memory) α) (b : β) (s : Memory) :
    (x >>= fun _ => pure b).run.run s = ((x.run.run s).1.map fun _ => b, (x.run.run s).2) := by
  rcases hrun : x.run.run s with ⟨e | a, t⟩
  · rw [bind_error hrun]
    rfl
  · rw [bind_ok hrun]
    rfl

lemma lift_bind {x : StateM Memory α} {f : α → Run (StateM Memory) β} {a : α}
    (h : x.run s = (a, t)) :
    ((liftM x : Run (StateM Memory) α) >>= f).run.run s = (f a).run.run t := by
  refine bind_ok ?_
  change (Except.ok <$> x).run s = _
  rw [StateT.run_map, h]
  rfl

end Run

namespace Disk

/-- The text of a source file, or what is said if there is none. -/
def text (d : Disk) (path : String) : Except String String :=
  if d.isFile path then
    match d.read path with
    | .error e => .error s!"Cannot read {path}: {e.message}"
    | .ok bytes =>
      match Text.Utf8.decode bytes with
      | .error f => .error s!"Cannot read {path}: {f.message}"
      | .ok text => .ok (String.ofList (Text.unifyNewlines text.toList))
  else .error s!"File not found: {path}"

/-- The text of a source depends on the file that its path leads to. -/
lemma text_congr {d d' : Disk} {path : String} (hfile : d'.fileAt path = d.fileAt path)
    (hlocked : d'.locked = d.locked) : d'.text path = d.text path := by
  unfold text
  rw [isFile_eq, isFile_eq, hfile]
  cases h : d.fileAt path with
  | none => rfl
  | some file =>
    obtain ⟨place, bytes⟩ := file
    rw [read_of_fileAt h, read_of_fileAt (hfile.trans h), hlocked]

/-- Saves a text in a file. -/
def saveText (path text : String) : Action := save path (Text.Utf8.encode text) Memory.startTime

end Disk

namespace Host

variable (s : Memory)

def errorLine (message : String) : String :=
  "\x7b\"error\": " ++ Json.asciiString message ++ "\x7d" ++ "\n"

lemma printLine_run (text : String) :
    (memory.printLine text).run s = ((), { s with printed := s.printed ++ (text ++ "\n") }) := rfl

lemma readSource_run (path : String) :
    (memory.readSource path).run s = (s.disk.text path).casesOn
      (fun message => (none, { s with printed := s.printed ++ errorLine message }))
      (fun text => (some text, s)) := by
  have hisFile : (memory.isFile path).run s = (s.disk.isFile path, s) := rfl
  have hread : (memory.read path).run s = (s.disk.read path, s) := rfl
  unfold readSource Disk.text
  rw [Run.state_bind hisFile]
  cases s.disk.isFile path with
  | false => rfl
  | true =>
    rw [if_pos rfl, if_pos rfl, Run.state_bind hread]
    cases s.disk.read path with
    | error => rfl
    | ok bytes =>
      dsimp only
      cases Text.Utf8.decode bytes <;> rfl

lemma logAll_run (least : Nat) (entries : List Log.Entry) :
    ∃ warned, (memory.logAll least entries).run s = ((), { s with warned }) := by
  induction entries generalizing s with
  | nil => exact ⟨s.warned, rfl⟩
  | cons e entries ih =>
    unfold logAll
    by_cases h : least ≤ e.level.severity
    · obtain ⟨warned, hrun⟩ := ih { s with warned := s.warned ++ (e.text ++ "\n") }
      refine ⟨warned, ?_⟩
      rw [if_pos h]
      exact hrun
    · obtain ⟨warned, hrun⟩ := ih s
      refine ⟨warned, ?_⟩
      rw [if_neg h]
      exact hrun

lemma orAbort_run (action : Disk.Action) :
    (orAbort (Memory.change action)).run.run s =
      ((action.run.run s.disk).1.mapError .file, { s with disk := (action.run.run s.disk).2 }) := by
  have hchange : (Memory.change action).run s =
      ((action.run.run s.disk).1, { s with disk := (action.run.run s.disk).2 }) := rfl
  unfold orAbort
  rw [Run.lift_bind hchange]
  cases (action.run.run s.disk).1 <;> rfl

lemma save_run (path text : String) :
    (memory.save path text).run.run s =
      (((Disk.saveText path text).run.run s.disk).1.mapError .file,
        { s with disk := ((Disk.saveText path text).run.run s.disk).2 }) := by
  have hwrite (t : Memory) := orAbort_run t
    (Disk.write path (Text.Utf8.encode text) Memory.startTime)
  have hfolders := orAbort_run s (Disk.makeFolders (Path.folder path))
  unfold save Disk.saveText Disk.save
  dsimp only
  cases (Path.folder path).isEmpty with
  | true => exact hwrite s
  | false =>
    rw [if_neg Bool.false_ne_true]
    rcases hrun : (Disk.makeFolders (Path.folder path)).run.run s.disk with ⟨e | _, d⟩ <;>
      rw [hrun] at hfolders
    · rw [ExceptT.run_bind, StateT.run_bind, hrun]
      exact Run.bind_error hfolders
    · rw [ExceptT.run_bind, StateT.run_bind, hrun]
      exact (Run.bind_ok hfolders).trans (hwrite _)

/-- What is done about a fault: diagnostics are reported, and nothing else is foreseen. -/
def answer : CompileFault → Except Abort (List Diagnostic)
  | .typing ds => .ok ds
  | .generating e => .error (.generating e)
  | .grammar f =>
    match f.diagnostic? with
    | some d => .ok [d]
    | none => .error (.reading f)

lemma logged_ok {α : Type} {work : Compile α} {a : α} (h : (work.run.run []).1 = .ok a)
    (least : Nat) :
    ∃ warned, (memory.logged least work).run.run s = (.ok (.ok a), { s with warned }) := by
  unfold logged
  rcases hrun : work.run.run [] with ⟨result, entries⟩
  obtain ⟨warned, hlog⟩ := logAll_run s least entries
  rw [hrun] at h
  obtain rfl : result = .ok a := h
  exact ⟨warned, Run.lift_bind hlog⟩

lemma logged_error {α : Type} {work : Compile α} {fault : CompileFault}
    (h : (work.run.run []).1 = .error fault) (least : Nat) :
    ∃ warned, (memory.logged least work).run.run s =
      ((answer fault).map .error, { s with warned }) := by
  unfold logged
  rcases hrun : work.run.run [] with ⟨result, entries⟩
  obtain ⟨warned, hlog⟩ := logAll_run s least entries
  rw [hrun] at h
  obtain rfl : result = .error fault := h
  refine ⟨warned, (Run.lift_bind hlog).trans ?_⟩
  cases fault with
  | typing | generating => rfl
  | grammar f =>
    dsimp only [answer]
    cases f.diagnostic? <;> rfl

end Host

namespace Site

abbrev Plan.source (plan : Plan) (x : Below) : String := x.path plan.folder

/-- The path of a source's page. -/
abbrev Plan.page (plan : Plan) (x : Below) : String := pagePath plan.outputDir x

/-- What comes of a source. -/
inductive Attempt where
  | built (html : String)
  /-- The source is at fault, and that is printed. -/
  | refused (report : String)
  /-- The whole run ends. -/
  | stopped (abort : Abort)

def Plan.compiled (plan : Plan) (x : Below) (text : String) : Attempt :=
  match compile text (plan.source x) plan.options with
  | .ok compiled => .built compiled.page.html
  | .error fault =>
    match Host.answer fault with
    | .ok ds => .refused (Diagnostic.listToJson ds ++ "\n")
    | .error abort => .stopped abort

def Plan.attempt (plan : Plan) (d : Disk) (x : Below) : Attempt :=
  match d.text (plan.source x) with
  | .error message => .refused (Host.errorLine message)
  | .ok text => plan.compiled x text

/-- How an attempt ends, what the disk is then and what is printed. -/
structure Outcome where
  result : Except Abort Bool
  disk : Disk
  report : String := ""

/-- How the building of a source ends. -/
def Plan.outcome (plan : Plan) (d : Disk) (x : Below) : Outcome :=
  match plan.attempt d x with
  | .refused report => { result := .ok false, disk := d, report }
  | .stopped abort => { result := .error abort, disk := d }
  | .built html =>
    match (Disk.saveText (plan.page x) html).run.run d with
    | (.error e, disk) => { result := .error (.file e), disk }
    | (.ok (), disk) =>
      { result := .ok true, disk, report := s!"Compiled: {plan.source x} -> {plan.page x}\n" }

variable (plan : Plan) (s : Memory) (x : Below)

lemma buildOne_run :
    ∃ warned, (plan.buildOne Host.memory x).run.run s = ((plan.outcome s.disk x).result,
      { s with
        disk := (plan.outcome s.disk x).disk
        printed := s.printed ++ (plan.outcome s.disk x).report
        warned }) := by
  have hread := Host.readSource_run s (plan.source x)
  unfold Plan.buildOne Plan.outcome Plan.attempt
  cases htext : s.disk.text (plan.source x) with
  | error =>
    rw [htext] at hread
    exact ⟨s.warned, Run.lift_bind hread⟩
  | ok text =>
    rw [htext] at hread
    dsimp only [Plan.compiled]
    rw [Run.lift_bind hread]
    cases hcompile : compile text (plan.source x) plan.options with
    | error fault =>
      obtain ⟨warned, hlogged⟩ := Host.logged_error s hcompile plan.logged
      refine ⟨warned, ?_⟩
      dsimp only
      cases hanswer : Host.answer fault with
      | error =>
        rw [hanswer] at hlogged
        rw [Run.bind_error hlogged, String.append_empty]
      | ok =>
        rw [hanswer] at hlogged
        rw [Run.bind_ok hlogged]
        rfl
    | ok compiled =>
      obtain ⟨warned, hlogged⟩ := Host.logged_ok s hcompile plan.logged
      rw [Run.bind_ok hlogged]
      have hsave := Host.save_run { s with warned } (plan.page x) compiled.page.html
      dsimp only at hsave ⊢
      rcases hrun : (Disk.saveText (plan.page x) compiled.page.html).run.run s.disk with
        ⟨e | _, d⟩ <;> rw [hrun] at hsave
      · refine ⟨warned, ?_⟩
        rw [Run.bind_error hsave, String.append_empty]
      · rw [Run.bind_ok hsave]
        have hprint := Host.printLine_run { s with disk := d, warned }
          s!"Compiled: {plan.source x} -> {plan.page x}"
        obtain ⟨warned, hlog⟩ := Host.logAll_run _ plan.logged
          [{ level := .debug, part := "cli", message := s!"rebuilt {plan.page x}" }]
        exact ⟨warned, (Run.lift_bind hprint).trans (Run.lift_bind hlog)⟩

/-- The state after the building of a source. -/
lemma exists_buildOne :
    ∃ t, (plan.buildOne Host.memory x).run.run s = ((plan.outcome s.disk x).result, t) ∧
      t.disk = (plan.outcome s.disk x).disk ∧
      t.printed = s.printed ++ (plan.outcome s.disk x).report ∧
      t.changes = s.changes ∧ t.waits = s.waits ∧ t.clock = s.clock := by
  obtain ⟨warned, hrun⟩ := buildOne_run plan s x
  exact ⟨_, hrun, rfl, rfl, rfl, rfl, rfl⟩

end Site

end UiScript
