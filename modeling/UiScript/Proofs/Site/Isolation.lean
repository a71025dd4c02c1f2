import UiScript.Proofs.Site.Attempt

/-!
# Sources are built each for itself

While a row of sources is built, each attempt is the one that would be made on the first disk, and
each page is the one that its source alone would leave. Only a source with an integer of more than
4300 digits keeps the sources behind it from being built.
-/

namespace UiScript.Site

open List

open Text.Utf8 (encode)

open Host (memory)

variable {plan : Plan} {d d' : Disk} {s t : Memory} {x y : Below} {xs all : List Below}
  {abort : Abort} {result : Except Abort (Nat × Nat)}

def Plan.sourcesOn (plan : Plan) (d : Disk) : List Below :=
  Site.sources plan.settings (d.listing plan.folder)

structure Plan.Steady (plan : Plan) (d : Disk) (xs : List Below) : Prop where
  sources : ∀ x ∈ xs, ∀ y ∈ xs, ∀ place, d.resolve (plan.page x) = some place →
    d.resolve (plan.source y) ≠ some place
  /-- If the path of a source names a file, then it leads there, and not only after folders have
  been made on the way. -/
  reached : ∀ x ∈ xs, ∀ place, d.resolve (plan.source x) = some place →
    (d.bytesAt place).isSome → (d.fileAt (plan.source x)).isSome

def Plan.Unshared (plan : Plan) (d : Disk) (xs : List Below) (x : Below) : Prop :=
  ∀ y ∈ xs, x ≠ y → ∀ place, d.resolve (plan.page x) = some place →
    d.resolve (plan.page y) ≠ some place

/-- The pages are at places of their own. -/
structure Plan.Apart (plan : Plan) (d : Disk) (xs : List Below) : Prop
    extends plan.Steady d xs where
  pages : ∀ x ∈ xs, plan.Unshared d xs x

def Attempt.isBuilt : Attempt → Bool
  | .built _ => true
  | _ => false

def Attempt.isStopped : Attempt → Bool
  | .stopped _ => true
  | _ => false

lemma attempt_eq_built {html : String} : plan.attempt d x = .built html ↔
    ∃ text compiled, d.text (plan.source x) = .ok text ∧
      compile text (plan.source x) plan.options = .ok compiled ∧ compiled.page.html = html := by
  unfold Plan.attempt
  cases htext : d.text (plan.source x) with
  | error => simp
  | ok text =>
    unfold Plan.compiled
    cases hcompile : compile text (plan.source x) plan.options with
    | ok => simp [hcompile]
    | error fault => cases hanswer : Host.answer fault <;> simp [hcompile, hanswer]

lemma attempt_congr (hfile : d'.fileAt (plan.source x) = d.fileAt (plan.source x))
    (hlocked : d'.locked = d.locked) : plan.attempt d' x = plan.attempt d x := by
  unfold Plan.attempt
  rw [Disk.text_congr hfile hlocked]

/-- What comes of a source does not change while pages are written. -/
lemma attempt_edited (hsteady : plan.Steady d all)
    (h : Disk.Edited (fun p => ∃ x ∈ all, d.resolve (plan.page x) = some p) d d') (hx : x ∈ all) :
    plan.attempt d' x = plan.attempt d x := by
  refine attempt_congr (h.fileAt (fun place hplace => ?_) (hsteady.reached x hx)) h.locked
  rintro ⟨y, hy, hpage⟩
  exact hsteady.sources y hy x hx place hpage hplace

/-! ### One source -/

/-- What is printed about a source unless the disk is in the way of its page. -/
def Plan.report (plan : Plan) (d : Disk) (x : Below) : String :=
  match plan.attempt d x with
  | .built _ => s!"Compiled: {plan.source x} -> {plan.page x}\n"
  | .refused report => report
  | .stopped _ => ""

lemma outcome_refused {report : String} (h : plan.attempt d x = .refused report) :
    plan.outcome d x = { result := .ok false, disk := d, report } := by
  unfold Plan.outcome
  rw [h]

lemma outcome_stopped (h : plan.attempt d x = .stopped abort) :
    plan.outcome d x = { result := .error abort, disk := d } := by
  unfold Plan.outcome
  rw [h]

/-- Without a page the disk stays as it is. -/
lemma disk_outcome (h : (plan.attempt d x).isBuilt = false) : (plan.outcome d x).disk = d := by
  cases hcase : plan.attempt d x with
  | refused => rw [outcome_refused hcase]
  | stopped => rw [outcome_stopped hcase]
  | built =>
    rw [hcase] at h
    cases h

lemma outcome_built {html : String} (h : plan.attempt d x = .built html) :
    Disk.Edited (fun p => d.resolve (plan.page x) = some p) d (plan.outcome d x).disk ∧
    ((∃ e, (plan.outcome d x).result = .error (.file e)) ∨
      (plan.outcome d x).result = .ok true ∧
        (plan.outcome d x).report = plan.report d x ∧
        ∃ place, d.resolve (plan.page x) = some place ∧
          (plan.outcome d x).disk.fileAt (plan.page x) =
            some (place, encode html)) := by
  have hedited := Disk.save_edited (plan.page x) (encode html) Memory.startTime d
  have hlocate (hsave : ((Disk.save (plan.page x) (encode html)
    Memory.startTime).run.run d).1 = .ok ()) := Disk.locate_save hsave
  unfold Plan.outcome Plan.report
  rw [h]
  dsimp only [Disk.saveText]
  rcases hrun : (Disk.save (plan.page x) (encode html) Memory.startTime).run.run d with
    ⟨e | _, disk⟩ <;> rw [hrun] at hedited hlocate
  · exact ⟨hedited, .inl ⟨e, rfl⟩⟩
  · obtain ⟨place, hplace, hlocate⟩ := hlocate rfl
    exact ⟨hedited, .inr ⟨rfl, rfl, place, hplace, Disk.fileAt_eq_some.mpr ⟨_, hlocate⟩⟩⟩

/-! ### A row of sources -/

lemma buildEach_cons_error {e : Abort} (h : (plan.buildOne memory x).run.run s = (.error e, t))
    (xs : List Below) : (plan.buildEach memory (x :: xs)).run.run s = (.error e, t) :=
  Run.bind_error h

/-- The numbers with one more source. -/
def counted (built : Bool) (counts : Nat × Nat) : Nat × Nat :=
  if built then (counts.1 + 1, counts.2) else (counts.1, counts.2 + 1)

lemma buildEach_cons_ok {built : Bool}
    (h : (plan.buildOne memory x).run.run s = (.ok built, t)) (xs : List Below) :
    (plan.buildEach memory (x :: xs)).run.run s =
      (((plan.buildEach memory xs).run.run t).1.map (counted built),
        ((plan.buildEach memory xs).run.run t).2) := by
  rw [Plan.buildEach, Run.bind_ok h]
  rcases hrun : (plan.buildEach memory xs).run.run t with ⟨e | counts, u⟩
  · exact Run.bind_error hrun
  · rw [Run.bind_ok hrun]
    cases built <;> rfl

/-- The sources before the first one that stops everything. -/
def Plan.attempted (plan : Plan) (d : Disk) (xs : List Below) : List Below :=
  xs.takeWhile fun x => !(plan.attempt d x).isStopped

/-- A row of sources was built from a state, each as on a disk. -/
structure Plan.Ran (plan : Plan) (d : Disk) (xs : List Below) (s : Memory)
    (result : Except Abort (Nat × Nat)) (t : Memory) : Prop where
  printed : t.printed = s.printed ++ String.join ((plan.attempted d xs).map (plan.report d))
  edited : Disk.Edited (fun p => ∃ x ∈ plan.attempted d xs, (plan.attempt d x).isBuilt ∧
    d.resolve (plan.page x) = some p) s.disk t.disk
  pages : ∀ x ∈ plan.attempted d xs, plan.Unshared d xs x →
    ∀ html, plan.attempt d x = .built html → ∃ place, d.resolve (plan.page x) = some place ∧
      t.disk.fileAt (plan.page x) = some (place, encode html)
  finished : plan.attempted d xs = xs → result = .ok (xs.countP fun x =>
    (plan.attempt d x).isBuilt, xs.countP fun x => !(plan.attempt d x).isBuilt)
  stopped : plan.attempted d xs ≠ xs → ∃ x ∈ xs, ∃ abort,
    plan.attempt d x = .stopped abort ∧ result = .error abort

lemma attempted_cons (h : (plan.attempt d x).isStopped = false) :
    plan.attempted d (x :: xs) = x :: plan.attempted d xs :=
  takeWhile_cons_of_pos (by simp [h])

lemma isStopped_of_mem (hx : x ∈ plan.attempted d xs) : (plan.attempt d x).isStopped = false := by
  simpa using mem_takeWhile_imp hx

lemma attempted_subset : plan.attempted d xs ⊆ xs := takeWhile_subset _

/-- A source was built before a row of others. -/
lemma Plan.Ran.cons {u : Memory} (hran : plan.Ran d xs t result u)
    (hstop : (plan.attempt d x).isStopped = false)
    (hprinted : t.printed = s.printed ++ plan.report d x)
    (hedited : Disk.Edited (fun p => (plan.attempt d x).isBuilt ∧
      d.resolve (plan.page x) = some p) s.disk t.disk)
    (hpage : ∀ html, plan.attempt d x = .built html →
      ∃ place, d.resolve (plan.page x) = some place ∧
        t.disk.fileAt (plan.page x) = some (place, encode html)) :
    plan.Ran d (x :: xs) s (result.map (counted (plan.attempt d x).isBuilt)) u where
  printed := by
    rw [attempted_cons hstop, hran.printed, hprinted, map_cons, String.join_cons,
      String.append_assoc]
  edited := by
    rw [attempted_cons hstop]
    refine (hedited.mono fun p hp => ?_).trans (hran.edited.mono fun p hp => ?_)
    · exact ⟨x, mem_cons_self, hp⟩
    · obtain ⟨y, hy, hp⟩ := hp
      exact ⟨y, mem_cons_of_mem _ hy, hp⟩
  pages := by
    rw [attempted_cons hstop]
    intro y hy hunshared html hbuilt
    have hothers : plan.Unshared d xs y := fun z hz => hunshared z (mem_cons_of_mem _ hz)
    by_cases hlater : y ∈ plan.attempted d xs
    · exact hran.pages y hlater hothers html hbuilt
    · obtain rfl : y = x := (mem_cons.mp hy).resolve_right hlater
      obtain ⟨place, hplace, hfile⟩ := hpage html hbuilt
      refine ⟨place, hplace, hran.edited.fileAt_of_fileAt ?_ hfile⟩
      rintro ⟨z, hz, -, hp⟩
      have hne : y ≠ z := fun he => hlater (he ▸ hz)
      exact hothers z (attempted_subset hz) hne place hplace hp
  finished := by
    rw [attempted_cons hstop]
    intro h
    rw [hran.finished (List.cons.inj h).2, countP_cons, countP_cons]
    cases (plan.attempt d x).isBuilt <;> rfl
  stopped := by
    rw [attempted_cons hstop]
    intro h
    obtain ⟨y, hy, abort, hstopped, rfl⟩ := hran.stopped fun he => h (congrArg (x :: ·) he)
    exact ⟨y, mem_cons_of_mem _ hy, abort, hstopped, rfl⟩

/-- Building a row of sources amounts to building each of them on the first disk. -/
lemma buildEach_ran (hsteady : plan.Steady d all) (hxs : xs ⊆ all)
    (hs : Disk.Edited (fun p => ∃ x ∈ all, d.resolve (plan.page x) = some p) d s.disk)
    (hrun : ∀ e, ((plan.buildEach memory xs).run.run s).1 ≠ .error (.file e)) :
    plan.Ran d xs s ((plan.buildEach memory xs).run.run s).1
      ((plan.buildEach memory xs).run.run s).2 := by
  induction xs generalizing s with
  | nil =>
    exact {
      printed := String.append_empty.symm
      edited := .refl _ _
      pages := by simp [Plan.attempted]
      finished := fun _ => rfl
      stopped := fun h => absurd rfl h }
  | cons x xs ih =>
    obtain ⟨hx, hxs⟩ := cons_subset.mp hxs
    obtain ⟨t, hone, hdisk, hprinted, -⟩ := exists_buildOne plan s x
    have hattempt := attempt_edited hsteady hs hx
    have hreport : plan.report s.disk x = plan.report d x := by
      unfold Plan.report
      rw [hattempt]
    cases hcase : plan.attempt d x with
    | stopped abort =>
      have hattempted : plan.attempted d (x :: xs) = [] :=
        takeWhile_cons_of_neg (by simp [hcase, Attempt.isStopped])
      rw [outcome_stopped (hattempt.trans hcase)] at hone hdisk hprinted
      rw [buildEach_cons_error hone]
      exact {
        printed := by rw [hattempted, hprinted]; rfl
        edited := hdisk ▸ .refl _ _
        pages := by simp [hattempted]
        finished := fun h => by rw [hattempted] at h; cases h
        stopped := fun _ => ⟨x, mem_cons_self, abort, hcase, rfl⟩ }
    | refused =>
      rw [outcome_refused (hattempt.trans hcase)] at hone hdisk hprinted
      rw [buildEach_cons_ok hone] at hrun ⊢
      have hran := ih hxs (by rw [hdisk]; exact hs) fun e he => hrun e (by rw [he]; rfl)
      have hcons := hran.cons (s := s) (by rw [hcase]; rfl)
        (by rw [hprinted, Plan.report, hcase]) (by rw [hdisk]; exact .refl _ _) (by simp [hcase])
      rwa [hcase] at hcons
    | built =>
      obtain ⟨hedited, ⟨e, he⟩ | ⟨hresult, hreport', place, hplace, hfile⟩⟩ :=
        outcome_built (hattempt.trans hcase)
      · rw [he] at hone
        rw [buildEach_cons_error hone] at hrun
        exact absurd rfl (hrun e)
      · rw [hs.resolve] at hedited hplace
        rw [hresult] at hone
        rw [← hdisk] at hedited hfile
        rw [buildEach_cons_ok hone] at hrun ⊢
        have hran := ih hxs (hs.trans (hedited.mono fun p hp => ⟨x, hx, hp⟩))
          fun e he => hrun e (by rw [he]; rfl)
        have hcons := hran.cons (s := s) (by rw [hcase]; rfl) (by rw [hprinted, hreport', hreport])
          (hedited.mono fun p hp => ⟨by rw [hcase]; rfl, hp⟩)
          (by
            intro html' hhtml
            obtain rfl := Attempt.built.inj (hcase.symm.trans hhtml)
            exact ⟨place, hplace, hfile⟩)
        rwa [hcase] at hcons

/-! ### Integers that are too long -/

/-- An integer of a source has too many digits to be read. -/
def Plan.overlong (plan : Plan) (d : Disk) (x : Below) : Bool :=
  match d.text (plan.source x) with
  | .error _ => false
  | .ok text =>
    match Program.parse text (plan.source x) with
    | .error (.numeral (.tooManyDigits _)) => true
    | _ => false

/-- Only an integer that is too long stops everything. -/
lemma parse_of_stopped {text : String} (h : plan.compiled x text = .stopped abort) :
    ∃ n, 4300 < n ∧ abort = .reading (.numeral (.tooManyDigits n)) ∧
      Program.parse text (plan.source x) = .error (.numeral (.tooManyDigits n)) := by
  unfold Plan.compiled at h
  cases hcompile : compile text (plan.source x) plan.options with
  | ok =>
    rw [hcompile] at h
    cases h
  | error =>
    rw [hcompile] at h
    obtain ⟨ds, rfl⟩ | ⟨f, rfl, hparse⟩ := fault_of_compile hcompile
    · cases h
    · obtain ⟨diagnostic, hdiagnostic⟩ | ⟨n, hn, rfl⟩ := Syntax.fault_of_parse hparse
      · simp only [Host.answer, hdiagnostic] at h
        cases h
      · cases h
        exact ⟨n, hn, rfl, hparse⟩

lemma abort_of_stopped (h : plan.attempt d x = .stopped abort) :
    ∃ n, 4300 < n ∧ abort = .reading (.numeral (.tooManyDigits n)) := by
  unfold Plan.attempt at h
  cases htext : d.text (plan.source x) with
  | error =>
    rw [htext] at h
    cases h
  | ok =>
    rw [htext] at h
    obtain ⟨n, hn, habort, -⟩ := parse_of_stopped h
    exact ⟨n, hn, habort⟩

lemma isStopped_attempt (plan : Plan) (d : Disk) (x : Below) :
    (plan.attempt d x).isStopped = plan.overlong d x := by
  unfold Plan.attempt Plan.overlong
  cases d.text (plan.source x) with
  | error => rfl
  | ok text =>
    dsimp only
    split
    · rename_i n hparse
      unfold Plan.compiled
      rw [compile_eq, hparse]
      rfl
    · rename_i hparse
      cases hcompiled : plan.compiled x text with
      | built | refused => rfl
      | stopped =>
        obtain ⟨n, -, -, hlong⟩ := parse_of_stopped hcompiled
        exact absurd hlong (hparse n)

/-! ### Pages -/

/-- A path leads to a file with the same contents on both disks. It may be that on the second disk
only the folders on the way are missing. -/
structure SameFile (path : String) (d d' : Disk) : Prop where
  kept : ∀ file, d'.fileAt path = some file → d.fileAt path = some file
  found : ∀ place bytes, d.fileAt path = some (place, bytes) → d'.bytesAt place = some bytes

lemma SameFile.of_edited {written : List String → Prop} {path : String}
    (h : Disk.Edited written d d')
    (hplace : ∀ place, d.resolve path = some place → ¬ written place) :
    SameFile path d' d where
  kept := by
    rintro ⟨place, bytes⟩ hfile
    exact h.fileAt_of_fileAt (hplace place (Disk.resolve_of_fileAt hfile).1) hfile
  found place bytes hfile := by
    obtain ⟨hresolve, hbytes⟩ := Disk.resolve_of_fileAt hfile
    rw [h.resolve] at hresolve
    rw [← h.bytesAt (hplace place hresolve)]
    exact hbytes

/-- A source that is not built leaves its page as it was. -/
lemma Plan.Ran.sameFile_before (hran : plan.Ran s.disk xs s result t)
    (hunshared : plan.Unshared s.disk xs x)
    (hbuilt : x ∈ plan.attempted s.disk xs → (plan.attempt s.disk x).isBuilt = false) :
    SameFile (plan.page x) t.disk s.disk := by
  refine .of_edited hran.edited fun place hplace => ?_
  rintro ⟨y, hy, hbuilt', hp⟩
  have hne : x ≠ y := by
    rintro rfl
    rw [hbuilt hy] at hbuilt'
    cases hbuilt'
  exact hunshared y (attempted_subset hy) hne place hplace hp

/-- A source that is attempted leaves the page that it leaves alone. -/
lemma Plan.Ran.sameFile_alone (hran : plan.Ran s.disk xs s result t)
    (hunshared : plan.Unshared s.disk xs x)
    (halone : ∀ e, (plan.outcome s.disk x).result ≠ .error (.file e))
    (hx : x ∈ plan.attempted s.disk xs) :
    SameFile (plan.page x) t.disk (plan.outcome s.disk x).disk := by
  cases hcase : plan.attempt s.disk x with
  | stopped =>
    rw [outcome_stopped hcase]
    exact hran.sameFile_before hunshared fun _ => by rw [hcase]; rfl
  | refused =>
    rw [outcome_refused hcase]
    exact hran.sameFile_before hunshared fun _ => by rw [hcase]; rfl
  | built html =>
    obtain ⟨place, hplace, hfile⟩ := hran.pages x hx hunshared html hcase
    obtain ⟨-, ⟨e, he⟩ | ⟨-, -, place', hplace', hfile'⟩⟩ := outcome_built hcase
    · exact absurd he (halone e)
    · obtain rfl := Option.some.inj (hplace.symm.trans hplace')
      rw [← hfile'] at hfile
      exact ⟨fun file h => hfile.trans h, fun place bytes h =>
        (Disk.resolve_of_fileAt (hfile.symm.trans h)).2⟩

/-! ### The whole run -/

lemma whenFolder_run (hfolder : s.disk.isFolder plan.folder) (go : Run (StateM Memory) Nat) :
    (plan.whenFolder memory go).run.run s = go.run.run s := by
  have hisFolder : (memory.isFolder plan.folder).run s = (true, s) := by
    rw [← hfolder]
    rfl
  unfold Plan.whenFolder
  rw [Run.lift_bind hisFolder, if_pos rfl]

lemma sources_run (plan : Plan) (s : Memory) :
    (plan.sources memory).run s = (plan.sourcesOn s.disk, s) := rfl

lemma buildAll_run (plan : Plan) (s : Memory) :
    (plan.buildAll memory).run.run s =
      (plan.buildEach memory (plan.sourcesOn s.disk)).run.run s :=
  Run.lift_bind (sources_run plan s)

lemma build_ok {counts : Nat × Nat} (hfolder : s.disk.isFolder plan.folder)
    (h : (plan.buildEach memory (plan.sourcesOn s.disk)).run.run s = (.ok counts, t)) :
    (plan.build memory).run.run s = (.ok (if 0 < counts.2 then 1 else 0),
      { t with
        printed := t.printed ++ (s!"{counts.1} file(s) built, {counts.2} failed" ++ "\n") }) := by
  unfold Plan.build
  rw [whenFolder_run hfolder, Run.bind_ok ((buildAll_run plan s).trans h)]
  exact Run.lift_bind (Host.printLine_run _ _)

lemma build_error {e : Abort} (hfolder : s.disk.isFolder plan.folder)
    (h : (plan.buildEach memory (plan.sourcesOn s.disk)).run.run s = (.error e, t)) :
    (plan.build memory).run.run s = (.error e, t) := by
  unfold Plan.build
  rw [whenFolder_run hfolder, Run.bind_error ((buildAll_run plan s).trans h)]

/-- The disk keeps no page from being written, neither if a source is built alone nor in the whole
run. -/
structure Plan.Writable (plan : Plan) (s : Memory) : Prop where
  alone : ∀ x ∈ plan.sourcesOn s.disk, ∀ e,
    ((plan.buildOne memory x).run.run s).1 ≠ .error (.file e)
  together : ∀ e, ((plan.build memory).run.run s).1 ≠ .error (.file e)

/-- A source tells alone whether it is built. -/
lemma result_of_isStopped (halone : ∀ e, (plan.outcome d x).result ≠ .error (.file e))
    (hstop : (plan.attempt d x).isStopped = false) :
    (plan.outcome d x).result.toOption = some (plan.attempt d x).isBuilt := by
  cases hcase : plan.attempt d x with
  | stopped =>
    rw [hcase] at hstop
    cases hstop
  | refused =>
    rw [outcome_refused hcase]
    rfl
  | built =>
    obtain ⟨-, ⟨e, he⟩ | ⟨hresult, -⟩⟩ := outcome_built hcase
    · exact absurd he (halone e)
    · rw [hresult]
      rfl

lemma report_outcome (halone : ∀ e, (plan.outcome d x).result ≠ .error (.file e)) :
    (plan.outcome d x).report = plan.report d x := by
  cases hcase : plan.attempt d x with
  | stopped => rw [outcome_stopped hcase, Plan.report, hcase]
  | refused => rw [outcome_refused hcase, Plan.report, hcase]
  | built =>
    obtain ⟨-, ⟨e, he⟩ | ⟨-, hreport, -⟩⟩ := outcome_built hcase
    · exact absurd he (halone e)
    · exact hreport

/-- A source that cannot be built fails only itself, but an integer of more than 4300 digits ends
everything. -/
theorem build_isolates (plan : Plan) (s : Memory) (hfolder : s.disk.isFolder plan.folder)
    (hapart : plan.Apart s.disk (plan.sourcesOn s.disk)) (hwritable : plan.Writable s) :
    let sources := plan.sourcesOn s.disk
    let attempted := sources.takeWhile fun x => !plan.overlong s.disk x
    let alone (x : Below) := (plan.buildOne Host.memory x).run.run s
    let run := (plan.build Host.memory).run.run s
    (∀ x ∈ attempted, SameFile (plan.page x) run.2.disk (alone x).2.disk) ∧
    (∀ x ∈ attempted, ∀ text compiled, s.disk.text (plan.source x) = .ok text →
      compile text (plan.source x) plan.options = .ok compiled →
      ∃ place, run.2.disk.fileAt (plan.page x) =
        some (place, Text.Utf8.encode compiled.page.html)) ∧
    (∀ x ∈ sources, x ∉ attempted → SameFile (plan.page x) run.2.disk s.disk) ∧
    ∃ report : Below → String,
      (∀ x ∈ attempted, (alone x).2.printed = s.printed ++ report x) ∧
      (attempted = sources → ∃ good bad,
        good = sources.countP (fun x => (alone x).1.toOption == some true) ∧
        bad = sources.countP (fun x => (alone x).1.toOption == some false) ∧
        good + bad = sources.length ∧
        run.1 = .ok (if 0 < bad then 1 else 0) ∧
        run.2.printed = s.printed ++ String.join (sources.map report) ++
          (s!"{good} file(s) built, {bad} failed" ++ "\n")) ∧
      (attempted ≠ sources →
        (∃ n, 4300 < n ∧ run.1 = .error (.reading (.numeral (.tooManyDigits n)))) ∧
        run.2.printed = s.printed ++ String.join (attempted.map report)) := by
  intro sources attempted alone run
  have hattempted : attempted = plan.attempted s.disk sources := by
    unfold attempted Plan.attempted
    simp only [isStopped_attempt]
  have hone (x : Below) : (alone x).1 = (plan.outcome s.disk x).result ∧
      (alone x).2.disk = (plan.outcome s.disk x).disk ∧
      (alone x).2.printed = s.printed ++ (plan.outcome s.disk x).report := by
    obtain ⟨t, hrun, hdisk, hprinted, -⟩ := exists_buildOne plan s x
    unfold alone
    rw [hrun]
    exact ⟨rfl, hdisk, hprinted⟩
  have halone (x : Below) (hx : x ∈ sources) (e : FileError) :
      (plan.outcome s.disk x).result ≠ .error (.file e) :=
    (hone x).1 ▸ hwritable.alone x hx e
  rcases hrow : (plan.buildEach Host.memory sources).run.run s with ⟨result, t⟩
  have hran : plan.Ran s.disk sources s result t := by
    have hfiles (e : FileError) :
        ((plan.buildEach Host.memory sources).run.run s).1 ≠ .error (.file e) := by
      intro he
      rw [hrow] at he
      obtain rfl : result = .error (.file e) := he
      refine hwritable.together e ?_
      rw [build_error hfolder hrow]
    have hran := buildEach_ran hapart.toSteady (List.Subset.refl _) (.refl _ _) hfiles
    rwa [hrow] at hran
  have hdisk : run.2.disk = t.disk := by
    unfold run
    cases result with
    | error => rw [build_error hfolder hrow]
    | ok => rw [build_ok hfolder hrow]
  rw [hattempted, hdisk]
  refine ⟨fun x hx => ?_, fun x hx text compiled htext hcompile => ?_, fun x hx hnot => ?_,
    plan.report s.disk, fun x hx => ?_, fun hall => ?_, fun hstop => ?_⟩
  · rw [(hone x).2.1]
    have hx' := attempted_subset hx
    exact hran.sameFile_alone (hapart.pages x hx') (halone x hx') hx
  · have hbuilt : plan.attempt s.disk x = .built compiled.page.html :=
      attempt_eq_built.mpr ⟨text, compiled, htext, hcompile, rfl⟩
    obtain ⟨place, -, hfile⟩ := hran.pages x hx (hapart.pages x (attempted_subset hx)) _ hbuilt
    exact ⟨place, hfile⟩
  · exact hran.sameFile_before (hapart.pages x hx) fun h => absurd h hnot
  · rw [(hone x).2.2, report_outcome (halone x (attempted_subset hx))]
  · obtain rfl := hran.finished hall
    have hcount (built : Bool) :
        sources.countP (fun x => (alone x).1.toOption == some built) =
          sources.countP fun x => (plan.attempt s.disk x).isBuilt == built := by
      refine List.countP_congr fun x hx => ?_
      rw [(hone x).1, result_of_isStopped (halone x hx) (isStopped_of_mem (hall.symm ▸ hx))]
      simp
    have hrun := build_ok hfolder hrow
    refine ⟨_, _, rfl, rfl, ?_, ?_, ?_⟩
    · rw [hcount, hcount, List.length_eq_countP_add_countP fun x => (plan.attempt s.disk x).isBuilt]
      simp
    · unfold run
      rw [hrun, hcount]
      simp
    · unfold run
      rw [hrun, hcount, hcount]
      simp [hran.printed, hall]
  · obtain ⟨x, -, abort, hcase, rfl⟩ := hran.stopped hstop
    obtain ⟨n, hn, rfl⟩ := abort_of_stopped hcase
    have hrun : run = (.error (.reading (.numeral (.tooManyDigits n))), t) :=
      build_error hfolder hrow
    rw [hrun]
    exact ⟨⟨n, hn, rfl⟩, hran.printed⟩

/-- Only saving a page meets trouble with files. -/
lemma saveText_of_trouble {e : FileError} (h : (plan.outcome d x).result = .error (.file e)) :
    ∃ html, plan.attempt d x = .built html ∧
      ((Disk.saveText (plan.page x) html).run.run d).1 = .error e := by
  cases hcase : plan.attempt d x with
  | refused =>
    rw [outcome_refused hcase] at h
    cases h
  | stopped =>
    obtain ⟨n, -, rfl⟩ := abort_of_stopped hcase
    rw [outcome_stopped hcase] at h
    cases h
  | built html =>
    refine ⟨html, rfl, ?_⟩
    unfold Plan.outcome at h
    rw [hcase] at h
    rcases hrun : (Disk.saveText (plan.page x) html).run.run d with ⟨e' | _, d'⟩ <;>
      simp only [hrun] at h
    · cases h
      rfl
    · cases h

lemma trouble_of_cons {e : FileError}
    (h : ((plan.buildEach memory (x :: xs)).run.run s).1 = .error (.file e)) :
    (plan.outcome s.disk x).result = .error (.file e) ∨
      ∃ t, t.disk = (plan.outcome s.disk x).disk ∧
        ((plan.buildEach memory xs).run.run t).1 = .error (.file e) := by
  obtain ⟨t, hone, hdisk, -⟩ := exists_buildOne plan s x
  cases hresult : (plan.outcome s.disk x).result with
  | error =>
    rw [hresult] at hone
    rw [buildEach_cons_error hone] at h
    cases h
    exact .inl rfl
  | ok =>
    rw [hresult] at hone
    rw [buildEach_cons_ok hone] at h
    refine .inr ⟨t, hdisk, ?_⟩
    cases hrest : ((plan.buildEach memory xs).run.run t).1 with
    | error =>
      rw [hrest] at h
      exact h
    | ok =>
      rw [hrest] at h
      cases h

/-- No trouble is met if only the last source may be built, and its page can be saved. -/
lemma writable_of_last (xs : List Below) (z : Below) (hfolder : s.disk.isFolder plan.folder)
    (hsources : plan.sourcesOn s.disk = xs ++ [z])
    (hfaults : ∀ x ∈ xs, (plan.attempt s.disk x).isBuilt = false)
    (hsave : ((Disk.save (plan.page z) [] 0).run.run s.disk).1.toBool) : plan.Writable s := by
  have hlast (e : FileError) : (plan.outcome s.disk z).result ≠ .error (.file e) := by
    intro h
    obtain ⟨html, -, htrouble⟩ := saveText_of_trouble h
    rw [Disk.saveText, Disk.save_result _ _ [] _ 0] at htrouble
    rw [htrouble] at hsave
    cases hsave
  have hothers (x : Below) (hx : x ∈ xs) (e : FileError) :
      (plan.outcome s.disk x).result ≠ .error (.file e) := by
    intro h
    obtain ⟨html, hbuilt, -⟩ := saveText_of_trouble h
    have := hfaults x hx
    rw [hbuilt] at this
    cases this
  have htogether (t : Memory) (ht : t.disk = s.disk) (e : FileError) :
      ((plan.buildEach memory (xs ++ [z])).run.run t).1 ≠ .error (.file e) := by
    clear hsources
    induction xs generalizing t with
    | nil =>
      intro h
      obtain h | ⟨u, -, h⟩ := trouble_of_cons h
      · exact hlast e (ht ▸ h)
      · cases h
    | cons x xs ih =>
      obtain ⟨hx, hxs⟩ := forall_mem_cons.mp hothers
      obtain ⟨hfault, hfaults⟩ := forall_mem_cons.mp hfaults
      intro h
      obtain h | ⟨u, hu, h⟩ := trouble_of_cons h
      · exact hx e (ht ▸ h)
      · exact ih hfaults hxs u (hu.trans ((ht.symm ▸ disk_outcome hfault).trans ht)) h
  refine ⟨fun x hx e h => ?_, fun e h => ?_⟩
  · obtain ⟨t, hrun, -⟩ := exists_buildOne plan s x
    rw [hrun] at h
    rw [hsources, mem_append, mem_singleton] at hx
    rcases hx with hx | rfl
    · exact hothers x hx e h
    · exact hlast e h
  · rcases hrow : (plan.buildEach memory (plan.sourcesOn s.disk)).run.run s with
      ⟨e' | counts, t⟩
    · rw [build_error hfolder hrow] at h
      cases h
      rw [hsources] at hrow
      exact htogether s rfl e (by rw [hrow])
    · rw [build_ok hfolder hrow] at h
      cases h

/-- A page is written behind a source with a fault and one that is no text. -/
theorem build_isolates_behind :
    let plan : Plan := { folder := ".", outputDir := "out" }
    let s : Memory := { disk := {
      root := .folder [("site", .folder [
        ("a.lum", .file (Text.Utf8.encode "let =") 0), ("b.lum", .file [0xff] 0),
        ("c.lum", .file (Text.Utf8.encode "let x = 1") 0)])]
      workingDir := "/site" } }
    plan.sourcesOn s.disk = [["a.lum"], ["b.lum"], ["c.lum"]] ∧
    s.disk.isFolder plan.folder ∧ plan.Apart s.disk (plan.sourcesOn s.disk) ∧ plan.Writable s ∧
    ∃ compiled, compile "let x = 1" "./c.lum" plan.options = .ok compiled ∧
      ∃ place, ((plan.build Host.memory).run.run s).2.disk.fileAt "out/c.html" =
        some (place, Text.Utf8.encode compiled.page.html) := by
  intro plan s
  have hsources : plan.sourcesOn s.disk = [["a.lum"], ["b.lum"], ["c.lum"]] := by decide +kernel
  have hfolder : s.disk.isFolder plan.folder := by decide +kernel
  have hapart : plan.Apart s.disk (plan.sourcesOn s.disk) := by
    rw [hsources]
    have hpages : ∀ x ∈ [["a.lum"], ["b.lum"], ["c.lum"]], ∀ y ∈ [["a.lum"], ["b.lum"], ["c.lum"]],
        (x ≠ y → s.disk.resolve (plan.page x) ≠ s.disk.resolve (plan.page y)) ∧
        s.disk.resolve (plan.page x) ≠ s.disk.resolve (plan.source y) ∧
        (s.disk.fileAt (plan.source x)).isSome := by decide +kernel
    exact {
      pages := fun x hx y hy hne place h h' => (hpages x hx y hy).1 hne (h.trans h'.symm)
      sources := fun x hx y hy place h h' => (hpages x hx y hy).2.1 (h.trans h'.symm)
      reached := fun x hx _ _ _ => (hpages x hx x hx).2.2 }
  have hwritable : plan.Writable s :=
    writable_of_last [["a.lum"], ["b.lum"]] ["c.lum"] hfolder hsources (by decide +kernel)
      (by decide +kernel)
  have hsource : plan.source ["c.lum"] = "./c.lum" := by decide +kernel
  have hpagePath : plan.page ["c.lum"] = "out/c.html" := by decide +kernel
  have htext : (s.disk.text "./c.lum").toOption = some "let x = 1" := by decide +kernel
  have hparse : (Program.parse "let x = 1" "./c.lum").toOption.isSome := by decide +kernel
  have hattempted : (plan.sourcesOn s.disk).takeWhile (fun x => !plan.overlong s.disk x) =
      [["a.lum"], ["b.lum"], ["c.lum"]] := by decide +kernel
  obtain ⟨p, hparse⟩ := Program.exists_parse hparse
  obtain ⟨page, hpage⟩ := Script.toPage_of_grammatical (Syntax.grammatical_of_parse hparse)
    plan.options.title
  have hcompile : compile "let x = 1" "./c.lum" plan.options = .ok { page } := by
    rw [compile_eq, hparse]
    dsimp only [Compile.finished]
    rw [hpage]
    rfl
  refine ⟨hsources, hfolder, hapart, hwritable, _, hcompile, ?_⟩
  have hpages := (build_isolates plan s hfolder hapart hwritable).2.1
  rw [hattempted] at hpages
  have hlast := hpages ["c.lum"] (by simp) "let x = 1" { page }
  rw [hsource, hpagePath] at hlast
  refine hlast ?_ hcompile
  cases hread : s.disk.text "./c.lum" with
  | error =>
    rw [hread] at htext
    cases htext
  | ok =>
    rw [hread] at htext
    rw [Option.some.inj htext]

end UiScript.Site
