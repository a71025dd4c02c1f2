import UiScript.Proofs.Site.Places
import UiScript.Site.Watch

/-!
# Polls of a watched site

A poll notes when the sources were written and builds those for which that is news. Watching a site
is building it and then waiting and polling in turn, as `Plan.steps` says it.
-/

namespace UiScript.Site

open List

open Run (lift_bind state_bind)

open Host (memory)

variable {plan : Plan} {d : Disk} {s t u : Memory} {seen : Seen} {x : Below} {xs : List Below}
  {n : Nat}

/-! ### Noting -/

def Plan.moment? (plan : Plan) (d : Disk) (x : Below) : Option Moment :=
  (d.modified? (plan.source x)).map fun time => { seconds := time }

lemma lookup_seen (x y : Below) (time : Moment) (seen : Seen) :
    ((x, time) :: seen).lookup y = if y = x then some time else seen.lookup y := by
  rw [lookup_cons]
  by_cases h : y = x
  · rw [beq_iff_eq.mpr h, if_pos h]
  · rw [beq_eq_false_iff_ne.mpr h, if_neg h]

/-- All sources are noted, and those are told for which there is news. -/
lemma note_run (seen : Seen) (hxs : xs.Nodup) (hfound : ∀ x ∈ xs, (plan.moment? s.disk x).isSome) :
    ∃ seen', (plan.note memory seen xs).run s =
        ((seen', xs.filter fun x => seen.lookup x != plan.moment? s.disk x), s) ∧
      ∀ x, seen'.lookup x = if x ∈ xs then plan.moment? s.disk x else seen.lookup x := by
  induction xs generalizing seen with
  | nil => exact ⟨seen, rfl, fun x => (if_neg not_mem_nil).symm⟩
  | cons x xs ih =>
    obtain ⟨hx, hxs⟩ := nodup_cons.mp hxs
    obtain ⟨hsome, hfound⟩ := forall_mem_cons.mp hfound
    obtain ⟨time, htime⟩ := Option.isSome_iff_exists.mp hsome
    have hmodified : (memory.modified? (x.path plan.folder)).run s = (some time, s) :=
      congrArg (·, s) htime
    rw [Plan.note, state_bind hmodified]
    dsimp only
    by_cases hseen : seen.lookup x = some time
    · obtain ⟨seen', hrun, hlookup⟩ := ih seen hxs hfound
      refine ⟨seen', ?_, fun y => ?_⟩
      · rw [if_pos (beq_iff_eq.mpr hseen), hrun, filter_cons_of_neg (by simp [hseen, htime])]
      · rw [hlookup]
        by_cases hy : y = x
        · rw [hy, if_neg hx, if_pos mem_cons_self, hseen, htime]
        · simp only [mem_cons, hy, false_or]
    · obtain ⟨seen', hrun, hlookup⟩ := ih ((x, time) :: seen) hxs hfound
      refine ⟨seen', ?_, fun y => ?_⟩
      · have hfilter : (xs.filter fun y => ((x, time) :: seen).lookup y != plan.moment? s.disk y) =
            xs.filter fun y => seen.lookup y != plan.moment? s.disk y := by
          refine filter_congr fun y hy => ?_
          have hne : y ≠ x := fun he => hx (he ▸ hy)
          rw [lookup_seen, if_neg hne]
        rw [hfilter] at hrun
        rw [if_neg (mt beq_iff_eq.mp hseen), state_bind hrun,
          filter_cons_of_pos (by simpa [htime] using hseen)]
        rfl
      · rw [hlookup, lookup_seen]
        by_cases hy : y = x
        · rw [hy, if_neg hx, if_pos rfl, if_pos mem_cons_self, htime]
        · simp only [mem_cons, hy, false_or, if_false]

/-! ### One poll -/

def Plan.news (plan : Plan) (d : Disk) (seen : Seen) : List Below :=
  (plan.sourcesOn d).filter fun x => seen.lookup x != plan.moment? d x

/-- What is printed before sources are built anew. -/
def newsLine (xs : List Below) : String :=
  if xs.isEmpty then "" else s!"\n{xs.length} file(s) changed, rebuilding..." ++ "\n"

/-- The state before sources are built anew. -/
def announced (t : Memory) (xs : List Below) : Memory :=
  { t with printed := t.printed ++ newsLine xs }

/-- A poll builds the sources for which there is news, and notes all of them. -/
lemma poll_run (seen : Seen) (hnodup : (plan.sourcesOn t.disk).Nodup)
    (hfound : ∀ x ∈ plan.sourcesOn t.disk, (plan.moment? t.disk x).isSome) :
    ∃ seen', (∀ x, seen'.lookup x =
        if x ∈ plan.sourcesOn t.disk then plan.moment? t.disk x else seen.lookup x) ∧
      (plan.poll memory seen).run.run t =
        let built := (plan.buildEach memory (plan.news t.disk seen)).run.run
          (announced t (plan.news t.disk seen))
        (built.1.map fun _ => seen', built.2) := by
  obtain ⟨seen', hnote, hlookup⟩ := note_run seen hnodup hfound
  refine ⟨seen', hlookup, ?_⟩
  have hnote : (plan.note memory seen (plan.sourcesOn t.disk)).run t =
      ((seen', plan.news t.disk seen), t) := hnote
  unfold Plan.poll
  rw [lift_bind (sources_run plan t), lift_bind hnote]
  dsimp only
  generalize plan.news t.disk seen = xs
  cases hxs : xs.isEmpty with
  | true =>
    obtain rfl := List.isEmpty_iff.mp hxs
    have hannounced : announced t [] = t := by simp [announced, newsLine]
    rw [hannounced]
    rfl
  | false =>
    have hprint : (memory.printLine s!"\n{xs.length} file(s) changed, rebuilding...").run t =
        ((), announced t xs) := by
      rw [announced, newsLine, if_neg (by simp [hxs])]
      rfl
    rw [Bool.not_false, if_pos rfl, lift_bind hprint, Run.bind_pure]

/-! ### Changes to come -/

/-- The changes to come, the waits so far and the clock are the same. -/
structure Keeps (s t : Memory) : Prop where
  changes : t.changes = s.changes
  waits : t.waits = s.waits
  clock : t.clock = s.clock

lemma Keeps.refl (s : Memory) : Keeps s s := ⟨rfl, rfl, rfl⟩

lemma Keeps.trans (h : Keeps s t) (h' : Keeps t u) : Keeps s u :=
  ⟨h'.changes.trans h.changes, h'.waits.trans h.waits, h'.clock.trans h.clock⟩

lemma buildEach_keeps (plan : Plan) (xs : List Below) (s : Memory) :
    Keeps s ((plan.buildEach memory xs).run.run s).2 := by
  induction xs generalizing s with
  | nil => exact .refl s
  | cons x xs ih =>
    obtain ⟨t, hone, -, -, hchanges, hwaits, hclock⟩ := exists_buildOne plan s x
    have hkeeps : Keeps s t := ⟨hchanges, hwaits, hclock⟩
    cases hresult : (plan.outcome s.disk x).result with
    | error =>
      rw [hresult] at hone
      rw [buildEach_cons_error hone]
      exact hkeeps
    | ok =>
      rw [hresult] at hone
      rw [buildEach_cons_ok hone]
      exact hkeeps.trans (ih t)

lemma note_state (plan : Plan) (seen : Seen) (xs : List Below) (s : Memory) :
    ∃ noted, (plan.note memory seen xs).run s = (noted, s) := by
  induction xs generalizing seen with
  | nil => exact ⟨_, rfl⟩
  | cons x xs ih =>
    have hmodified : (memory.modified? (x.path plan.folder)).run s =
      (plan.moment? s.disk x, s) := rfl
    rw [Plan.note, state_bind hmodified]
    cases plan.moment? s.disk x with
    | none => exact ih seen
    | some time =>
      dsimp only
      split
      · exact ih seen
      · obtain ⟨noted, hrun⟩ := ih ((x, time) :: seen)
        exact ⟨_, state_bind hrun⟩

lemma poll_keeps (plan : Plan) (seen : Seen) (t : Memory) :
    Keeps t ((plan.poll memory seen).run.run t).2 := by
  obtain ⟨⟨seen', changed⟩, hnote⟩ := note_state plan seen (plan.sourcesOn t.disk) t
  unfold Plan.poll
  rw [lift_bind (sources_run plan t), lift_bind hnote]
  dsimp only
  split
  · rw [lift_bind (Host.printLine_run _ _), Run.bind_pure]
    have hkeeps := buildEach_keeps plan changed
    exact ⟨(hkeeps _).changes, (hkeeps _).waits, (hkeeps _).clock⟩
  · exact .refl t

/-- A wait lets the next change happen. -/
lemma exists_sleep (interval : Binary64) {c : Change} {rest : List Change}
    (h : t.changes = c :: rest) :
    ∃ u, (memory.sleep interval).run t = (true, u) ∧
      u.disk = Memory.apply (t.clock (t.waits.length + 1)) t.disk c ∧ u.printed = t.printed ∧
      u.changes = rest ∧ u.waits.length = t.waits.length + 1 ∧ u.clock = t.clock := by
  have hwaits : (t.waits ++ [interval]).length = t.waits.length + 1 := length_append
  refine ⟨{ t with
    waits := t.waits ++ [interval]
    changes := rest
    disk := Memory.apply (t.clock (t.waits ++ [interval]).length) t.disk c }, ?_⟩
  refine ⟨?_, by rw [hwaits], rfl, rfl, hwaits, rfl⟩
  change (Memory.sleep interval).run t = _
  unfold Memory.sleep
  rw [state_bind (rfl : (get : StateM Memory Memory).run t = (t, t))]
  dsimp only
  rw [h]
  rfl

/-! ### Polls in turn -/

/-- Waits for a change and polls. -/
def Plan.step (plan : Plan) (interval : Binary64) (seen : Seen) : Run (StateM Memory) Seen := do
  if ← memory.sleep interval then plan.poll memory seen else return seen

/-- So many waits and polls. -/
def Plan.steps (plan : Plan) (interval : Binary64) : Nat → Seen → Run (StateM Memory) Seen
  | 0, seen => return seen
  | n + 1, seen => plan.steps interval n seen >>= plan.step interval

lemma steps_succ (plan : Plan) (interval : Binary64) (n : Nat) (seen : Seen) :
    plan.steps interval (n + 1) seen = plan.step interval seen >>= plan.steps interval n := by
  induction n generalizing seen with
  | zero =>
    rw [Plan.steps, Plan.steps, pure_bind]
    exact (bind_pure _).symm
  | succ n ih =>
    rw [Plan.steps, ih, bind_assoc]
    rfl

lemma step_run (interval : Binary64) (h : (memory.sleep interval).run t = (true, u)) :
    (plan.step interval seen).run.run t = (plan.poll memory seen).run.run u := by
  unfold Plan.step
  rw [lift_bind h, if_pos rfl]

/-- As long as there are changes, polling goes step by step. -/
lemma pollFor_run (plan : Plan) (interval : Binary64) (h : n ≤ t.changes.length) :
    (plan.pollFor memory interval n seen).run.run t =
      (((plan.steps interval n seen).run.run t).1.map fun _ => (),
        ((plan.steps interval n seen).run.run t).2) := by
  induction n generalizing seen t with
  | zero => rfl
  | succ n ih =>
    obtain ⟨c, rest, hchanges⟩ := exists_cons_of_length_pos (Nat.lt_of_lt_of_le n.succ_pos h)
    obtain ⟨u, hsleep, -, -, hrest, -⟩ := exists_sleep interval hchanges
    have hkeeps := poll_keeps plan seen u
    rw [Plan.pollFor, lift_bind hsleep, if_pos rfl, steps_succ]
    rcases hpoll : (plan.poll memory seen).run.run u with ⟨e | seen', v⟩
    · rw [Run.bind_error hpoll, Run.bind_error ((step_run interval hsleep).trans hpoll)]
      rfl
    · rw [Run.bind_ok hpoll, Run.bind_ok ((step_run interval hsleep).trans hpoll)]
      refine ih ?_
      rw [hpoll] at hkeeps
      rw [hkeeps.changes, hrest]
      rw [hchanges] at h
      exact Nat.le_of_succ_le_succ h

lemma exists_steps_of_le {interval : Binary64} {k : Nat} {seen' : Seen} (hk : k ≤ n)
    (h : (plan.steps interval n seen).run.run t = (.ok seen', u)) :
    ∃ seen' u, (plan.steps interval k seen).run.run t = (.ok seen', u) := by
  induction n generalizing seen' u with
  | zero => exact ⟨seen', u, Nat.le_zero.mp hk ▸ h⟩
  | succ n ih =>
    rcases Nat.of_le_succ hk with hk | rfl
    · rcases hn : (plan.steps interval n seen).run.run t with ⟨e | seen'', v⟩
      · rw [Plan.steps, Run.bind_error hn] at h
        cases h
      · exact ih hk hn
    · exact ⟨seen', u, h⟩

/-- Some changes have happened, each during a wait. -/
structure Advanced (n : Nat) (s t : Memory) : Prop where
  changes : t.changes = s.changes.drop n
  waits : t.waits.length = s.waits.length + n
  clock : t.clock = s.clock

lemma step_of_advanced (plan : Plan) (seen : Seen) (interval : Binary64)
    (h : Advanced n s t) (hn : n < s.changes.length) :
    ∃ u, (plan.step interval seen).run.run t = (plan.poll memory seen).run.run u ∧
      u.disk = Memory.apply (s.clock (s.waits.length + n + 1)) t.disk (s.changes.getD n {}) ∧
      u.printed = t.printed ∧ Advanced (n + 1) s ((plan.poll memory seen).run.run u).2 := by
  have hchanges := h.changes
  rw [drop_eq_getElem_cons hn] at hchanges
  obtain ⟨u, hsleep, hdisk, hprinted, hrest, hwaits, hclock⟩ := exists_sleep interval hchanges
  have hkeeps := poll_keeps plan seen u
  refine ⟨u, step_run interval hsleep, ?_, hprinted, ?_⟩
  · rw [hdisk, h.clock, h.waits, getD_eq_getElem?_getD, getElem?_eq_getElem hn,
      Option.getD_some]
  · exact ⟨hkeeps.changes.trans hrest, by rw [hkeeps.waits, hwaits, h.waits, Nat.add_assoc],
      hkeeps.clock.trans (hclock.trans h.clock)⟩

/-! ### The whole run -/

/-- The state in which polling starts: the site is built, and its sources are noted. -/
structure Plan.Started (plan : Plan) (s t : Memory) (seen : Seen) : Prop where
  folder : s.disk.isFolder plan.folder
  built : ∃ s' u counts, s'.disk = s.disk ∧ Keeps s s' ∧
    (plan.buildEach memory (plan.sourcesOn s.disk)).run.run s' = (.ok counts, u) ∧
    t.disk = u.disk ∧ Keeps u t
  noted : ∃ changed,
    (plan.note memory [] (plan.sourcesOn t.disk)).run t = ((seen, changed), t)

lemma Plan.Started.keeps (h : plan.Started s t seen) : Keeps s t := by
  obtain ⟨s', u, counts, -, hs', hrun, -, ht⟩ := h.built
  have hkeeps := buildEach_keeps plan (plan.sourcesOn s.disk) s'
  rw [hrun] at hkeeps
  exact hs'.trans (hkeeps.trans ht)

lemma isFolder_of_whenFolder {go : Run (StateM Memory) Nat}
    (h : ((plan.whenFolder memory go).run.run s).1 = .ok 0) :
    s.disk.isFolder plan.folder := by
  cases hfolder : s.disk.isFolder plan.folder with
  | true => rfl
  | false =>
    have hisFolder : (memory.isFolder plan.folder).run s = (false, s) := by
      rw [← hfolder]
      rfl
    unfold Plan.whenFolder at h
    rw [lift_bind hisFolder, if_neg Bool.false_ne_true] at h
    cases h

lemma ensuring_run {α : Type} (go : Run (StateM Memory) α) (last : StateM Memory Unit)
    (t : Memory) : (ensuring go last).run.run t =
      ((go.run.run t).1, (last.run (go.run.run t).2).2) := by
  rcases hgo : go.run.run t with ⟨result, u⟩
  exact state_bind hgo

/-- A server starts unless its address is taken. -/
lemma serve_eq (folder host : String) (port : Int) : (memory.serve folder host port).run u =
    if u.busy then (.error { trouble := .addressInUse }, u)
    else (.ok (if port == 0 then Memory.freePort else port),
      { u with calls := u.calls ++ [ServerCall.start folder host port] }) := by
  change (Memory.serve folder host port).run u = _
  unfold Memory.serve
  rw [state_bind (rfl : (get : StateM Memory Memory).run u = (u, u))]
  cases u.busy <;> rfl

lemma serve_run (folder host : String) (port : Int) (hbusy : u.busy = false) :
    ∃ taken t, (memory.serve folder host port).run u = (.ok taken, t) ∧ t.disk = u.disk ∧
      Keeps u t :=
  ⟨_, _, (serve_eq ..).trans (if_neg (by simp [hbusy])), rfl, rfl, rfl, rfl⟩

/-- The site is built, then polls follow. -/
lemma watch_run (interval : Binary64) (server : Option Server)
    (h : ((plan.watch memory interval server n).run.run s).1 = .ok 0) :
    ∃ t seen, plan.Started s t seen ∧ ∀ n,
      let run := (plan.watch memory interval server n).run.run s
      let polls := (plan.pollFor memory interval n seen).run.run t
      run.1 = polls.1.map (fun _ => 0) ∧ run.2.disk = polls.2.disk ∧
        run.2.printed = polls.2.printed := by
  have hfolder : s.disk.isFolder plan.folder := isFolder_of_whenFolder h
  unfold Plan.watch at h ⊢
  have hprint := Host.printLine_run s s!"Watching {plan.folder} for changes... (Ctrl+C to stop)"
  generalize hs' : { s with printed := _ } = s' at hprint
  have hdisk : s'.disk = s.disk := by rw [← hs']
  have hkeeps : Keeps s s' := by
    rw [← hs']
    exact ⟨rfl, rfl, rfl⟩
  rcases hrow : (plan.buildEach memory (plan.sourcesOn s.disk)).run.run s' with
    ⟨e | counts, u⟩
  all_goals
    have hbuild := buildAll_run plan s'
    rw [hdisk, hrow] at hbuild
    simp only [whenFolder_run hfolder, lift_bind hprint] at h ⊢
  · rw [Run.bind_error hbuild] at h
    cases h
  · simp only [Run.bind_ok hbuild] at h ⊢
    have hgo {t : Memory} {noted : Seen × List Below}
        (hnote : (plan.note memory [] (plan.sourcesOn t.disk)).run t = (noted, t))
        (next : Seen × List Below → Run (StateM Memory) Nat) : (do
          let sources ← (plan.sources memory : StateM Memory _)
          let noted ← (plan.note memory [] sources : StateM Memory _)
          next noted : Run (StateM Memory) Nat).run.run t = (next noted).run.run t := by
      rw [lift_bind (sources_run plan t), lift_bind hnote]
    cases server with
    | none =>
      obtain ⟨⟨seen, changed⟩, hnote⟩ := note_state plan [] (plan.sourcesOn u.disk) u
      refine ⟨u, seen, ⟨hfolder, ⟨s', u, counts, hdisk, hkeeps, hrow, rfl, .refl u⟩,
        changed, hnote⟩, fun n => ?_⟩
      dsimp only
      rw [hgo hnote, Run.bind_pure]
      exact ⟨rfl, rfl, rfl⟩
    | some server =>
      dsimp only at h ⊢
      cases hbusy : u.busy with
      | true =>
        rw [lift_bind ((serve_eq ..).trans (if_pos hbusy))] at h
        cases h
      | false =>
        obtain ⟨port, v, hserve, hdisk', hkeeps'⟩ :=
          serve_run plan.outputDir server.host server.port hbusy
        have hprint' := Host.printLine_run v
          s!"Serving {plan.outputDir} at http://{server.host}:{port}"
        generalize hv' : { v with printed := _ } = v' at hprint'
        simp only [lift_bind hserve, lift_bind hprint', ensuring_run]
        obtain ⟨⟨seen, changed⟩, hnote⟩ := note_state plan [] (plan.sourcesOn v'.disk) v'
        refine ⟨v', seen, ⟨hfolder, ⟨s', u, counts, hdisk, hkeeps, hrow, ?_, ?_⟩, changed, hnote⟩,
          fun n => ?_⟩
        · rw [← hv', ← hdisk']
        · rw [← hv']
          exact hkeeps'.trans ⟨rfl, rfl, rfl⟩
        · rw [hgo hnote, Run.bind_pure]
          exact ⟨rfl, rfl, rfl⟩

end UiScript.Site
