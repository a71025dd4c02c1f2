import UiScript.Proofs.Site.Changes
import UiScript.Proofs.Site.Polling

/-!
# Pages are never stale

While a site is watched, sources are written and removed during the waits. As long as each write
gives a source a time that it never had, every page is after every poll the one of its source.
-/

namespace UiScript.Site

open Text.Utf8 (encode)

variable {plan : Plan} {d d' e : Disk} {s t v : Memory} {seen seen' : Seen} {x : Below}
  {xs : List Below} {place : List String}

/-! ### One look -/

/-- The places of the pages that are written when sources are built. -/
def Plan.pagesOf (plan : Plan) (d : Disk) (xs : List Below) (p : List String) : Prop :=
  ∃ x ∈ xs, (plan.attempt d x).isBuilt ∧ d.resolve (plan.page x) = some p

/-- The sources on a disk were looked at, those with news were built, and all were noted. -/
structure Plan.Looked (plan : Plan) (place : List String) (seen : Seen) (d : Disk) (seen' : Seen)
    (d' : Disk) : Prop where
  stands : plan.Stands place d
  noted : ∀ x, seen'.lookup x =
    if x ∈ plan.sourcesOn d then plan.moment? d x else seen.lookup x
  edited : Disk.Edited (plan.pagesOf d (plan.news d seen)) d d'
  pages : ∀ x ∈ plan.news d seen, plan.Unshared d (plan.news d seen) x →
    ∀ html, plan.attempt d x = .built html →
      ∃ p, d'.fileAt (plan.page x) = some (p, encode html)

lemma news_subset (plan : Plan) (d : Disk) (seen : Seen) :
    plan.news d seen ⊆ plan.sourcesOn d := fun _ => List.mem_of_mem_filter

lemma Plan.Stands.moment?_isSome (h : plan.Stands place d) (hx : x ∈ plan.sourcesOn d) :
    (plan.moment? d x).isSome := by
  obtain ⟨bytes, time, hview, -⟩ := h.locate_source hx
  rw [Plan.moment?, (h.source_of_view hx hview).2]
  rfl

lemma Plan.Stands.news_nil (h : plan.Stands place d) : plan.news d [] = plan.sourcesOn d := by
  refine List.filter_eq_self.mpr fun x hx => ?_
  obtain ⟨time, htime⟩ := Option.isSome_iff_exists.mp (h.moment?_isSome hx)
  rw [htime]
  rfl

lemma Plan.Stands.endsAsSource_pagesOf (h : plan.Stands place d) (hxs : xs ⊆ plan.sourcesOn d)
    (p : List String) (hp : plan.pagesOf d xs p) : endsAsSource p = false := by
  obtain ⟨x, hx, -, hp⟩ := hp
  exact h.endsAsSource_page (hxs hx) hp

/-- The pages of a row of sources that is built without an abort. -/
lemma Plan.Stands.built (h : plan.Stands place t.disk) (hxs : xs ⊆ plan.sourcesOn t.disk)
    {counts : Nat × Nat} (hrun : (plan.buildEach Host.memory xs).run.run t = (.ok counts, v)) :
    Disk.Edited (plan.pagesOf t.disk xs) t.disk v.disk ∧
      ∀ x ∈ xs, plan.Unshared t.disk xs x → ∀ html, plan.attempt t.disk x = .built html →
        ∃ p, v.disk.fileAt (plan.page x) = some (p, encode html) := by
  have hran := buildEach_ran h.steady hxs (.refl _ t.disk) (by rw [hrun]; intro e he; cases he)
  rw [hrun] at hran
  have hall : plan.attempted t.disk xs = xs := by
    by_contra hstop
    obtain ⟨x, -, abort, -, he⟩ := hran.stopped hstop
    cases he
  have hedited := hran.edited
  rw [hall] at hedited
  refine ⟨hedited, fun x hx hunshared html hbuilt => ?_⟩
  obtain ⟨p, -, hfile⟩ := hran.pages x (hall.symm ▸ hx) hunshared html hbuilt
  exact ⟨p, hfile⟩

lemma looked_of_poll (h : plan.Stands place t.disk)
    (hrun : (plan.poll Host.memory seen).run.run t = (.ok seen', v)) :
    plan.Looked place seen t.disk seen' v.disk ∧
      ∃ counts, (plan.buildEach Host.memory (plan.news t.disk seen)).run.run
        (announced t (plan.news t.disk seen)) = (.ok counts, v) := by
  obtain ⟨seen'', hnoted, hpoll⟩ := poll_run seen h.nodup_sourcesOn fun x => h.moment?_isSome
  rw [hrun] at hpoll
  rcases hbuild : (plan.buildEach Host.memory (plan.news t.disk seen)).run.run
    (announced t (plan.news t.disk seen)) with ⟨e | counts, v'⟩ <;> rw [hbuild] at hpoll
  · cases hpoll
  · cases hpoll
    have hbuilt := Plan.Stands.built (t := announced t (plan.news t.disk seen)) h
      (news_subset plan t.disk seen) hbuild
    exact ⟨⟨h, hnoted, hbuilt.1, hbuilt.2⟩, counts, rfl⟩

/-- The site is built at the first look. -/
lemma looked_of_started (htidy : s.disk.root.Tidy) (h : plan.Started s t seen) :
    ∃ place, plan.Looked place [] s.disk seen t.disk := by
  obtain ⟨place, hstands⟩ := exists_stands htidy h.folder
  obtain ⟨s', u, counts, hs', -, hrun, ht, -⟩ := h.built
  obtain ⟨changed, hnote⟩ := h.noted
  have hbuilt := Plan.Stands.built (t := s') (hs'.symm ▸ hstands)
    (by rw [hs']; exact fun _ => id) hrun
  rw [hs', ← ht] at hbuilt
  have hwritten := hstands.endsAsSource_pagesOf fun _ => id
  have hafter := hstands.edited hbuilt.1
  refine ⟨place, hstands, fun x => ?_, ?_, ?_⟩
  · obtain ⟨seen', hnote', hlookup⟩ := note_run [] hafter.nodup_sourcesOn fun x =>
      hafter.moment?_isSome
    obtain ⟨rfl, -⟩ := Prod.mk.inj (congrArg Prod.fst (hnote.symm.trans hnote'))
    rw [hlookup]
    by_cases hx : x ∈ plan.sourcesOn s.disk
    · rw [if_pos hx, if_pos ((hstands.mem_sourcesOn_edited hbuilt.1 hwritten).mpr hx), Plan.moment?,
        (hstands.source_edited hbuilt.1 hwritten hx).2]
      rfl
    · rw [if_neg hx, if_neg (mt (hstands.mem_sourcesOn_edited hbuilt.1 hwritten).mp hx)]
  · rw [hstands.news_nil]
    exact hbuilt.1
  · rw [hstands.news_nil]
    exact hbuilt.2

namespace Plan.Looked

variable (h : plan.Looked place seen d seen' d')

include h

lemma endsAsSource_pagesOf (p : List String) (hp : plan.pagesOf d (plan.news d seen) p) :
    endsAsSource p = false :=
  h.stands.endsAsSource_pagesOf (news_subset plan d seen) p hp

lemma stands_after : plan.Stands place d' := h.stands.edited h.edited

lemma mem_sourcesOn : x ∈ plan.sourcesOn d' ↔ x ∈ plan.sourcesOn d :=
  h.stands.mem_sourcesOn_edited h.edited h.endsAsSource_pagesOf

lemma attempt_eq (hx : x ∈ plan.sourcesOn d) : plan.attempt d' x = plan.attempt d x :=
  attempt_congr (h.stands.source_edited h.edited h.endsAsSource_pagesOf hx).1 h.edited.locked

/-- A page stays as it was, also before sources changed, if it is not written. -/
lemma page_kept (hx : x ∈ plan.sourcesOn d)
    (hbuilt : ∀ y ∈ plan.news d seen, plan.page y = plan.page x →
      (plan.attempt d y).isBuilt = false)
    (he : Disk.Edited (endsAsSource ·) e d) : SameFile (plan.page x) d' e := by
  have hedited : Disk.Edited (fun p => endsAsSource p ∨ plan.pagesOf d (plan.news d seen) p) e d' :=
    (he.mono fun _ => .inl).trans (h.edited.mono fun _ => .inr)
  refine .of_edited hedited fun p hp => ?_
  rw [← he.resolve] at hp
  rintro (hsource | ⟨y, hy, hbuilt', hp'⟩)
  · rw [h.stands.endsAsSource_page hx hp] at hsource
    cases hsource
  · have hpage := h.stands.page_eq_of_resolve hx (news_subset plan d seen hy) hp hp'
    rw [hbuilt y hy hpage] at hbuilt'
    cases hbuilt'

end Plan.Looked

/-! ### Watching -/

structure Watching where
  plan : Plan
  start : Memory
  interval : Binary64
  server : Option Server := none

namespace Watching

variable (w : Watching) {n k : Nat}

/-- How watching ends after some polls. -/
def run (n : Nat) : Except Abort Nat × Memory :=
  (w.plan.watch Host.memory w.interval w.server n).run.run w.start

/-- The disk after some polls. -/
def disk (n : Nat) : Disk := (w.run n).2.disk

/-- What happens to the disk after some polls. -/
def change (n : Nat) : Change := w.start.changes.getD n {}

/-- When a file counts as written that is written at a path after some polls. -/
def times (n : Nat) : String → Int := w.start.clock (w.start.waits.length + n + 1)

/-- The disk that is found at a look. The first look builds the site, the others are the polls. -/
def found : Nat → Disk
  | 0 => w.start.disk
  | n + 1 => Memory.apply (w.times n) (w.disk n) (w.change n)

/-- The disk that the look before has left. -/
def before : Nat → Disk
  | 0 => w.start.disk
  | n + 1 => w.disk n

/-- When a source was written according to the last look before some look that found it. -/
def recorded : Nat → Below → Option Int
  | 0, _ => none
  | n + 1, x =>
    if x ∈ w.plan.sourcesOn (w.found n) then (w.found n).modified? (w.plan.source x)
    else recorded n x

/-- No other source that is found at a look has its page at the same path. -/
def Unshared (n : Nat) (x : Below) : Prop :=
  ∀ k ≤ n, ∀ y ∈ w.plan.sourcesOn (w.found k), y ≠ x → w.plan.page y ≠ w.plan.page x

/-- Some polls are made and nothing aborts them. Only sources change, on a disk without links, and
what is written gets a time that it never had. -/
structure Orderly (n : Nat) : Prop where
  tidy : w.start.disk.root.Tidy
  enough : n ≤ w.start.changes.length
  finished : (w.run n).1 = .ok 0
  sources : ∀ k < n, Memory.IsSourceChange (w.times k) (w.disk k) (w.change k)
  fresh : ∀ k < n, ∀ e ∈ (w.change k).writes, ∀ i ≤ k,
    ((w.found i).root.view ((w.disk k).spot e.1)).bind Item.time? ≠ some (w.times k e.1)

variable {w}

/-- The states between the polls. -/
lemma Orderly.states (h : w.Orderly n) : ∃ (seen : Nat → Seen) (state : Nat → Memory),
    w.plan.Started w.start (state 0) (seen 0) ∧
    (∀ k ≤ n, w.disk k = (state k).disk ∧ (w.run k).2.printed = (state k).printed) ∧
    ∀ k < n, ∃ u, u.disk = w.found (k + 1) ∧ u.printed = (state k).printed ∧
      (w.plan.poll Host.memory (seen k)).run.run u = (.ok (seen (k + 1)), state (k + 1)) := by
  obtain ⟨t₀, seen₀, hstarted, hpolls⟩ := watch_run w.interval w.server h.finished
  have hkeeps := hstarted.keeps
  have hrun (k : Nat) (hk : k ≤ n) :
      (w.run k).1 = ((w.plan.steps w.interval k seen₀).run.run t₀).1.map (fun _ => 0) ∧
        w.disk k = ((w.plan.steps w.interval k seen₀).run.run t₀).2.disk ∧
        (w.run k).2.printed = ((w.plan.steps w.interval k seen₀).run.run t₀).2.printed := by
    have henough : k ≤ t₀.changes.length := by
      rw [hkeeps.changes]
      exact Nat.le_trans hk h.enough
    have hpoll := hpolls k
    rw [pollFor_run w.plan w.interval henough] at hpoll
    refine ⟨hpoll.1.trans ?_, hpoll.2.1, hpoll.2.2⟩
    cases ((w.plan.steps w.interval k seen₀).run.run t₀).1 <;> rfl
  have hok (k : Nat) (hk : k ≤ n) :
      ∃ seen t, (w.plan.steps w.interval k seen₀).run.run t₀ = (.ok seen, t) := by
    rcases hn : (w.plan.steps w.interval n seen₀).run.run t₀ with ⟨e | seen, t⟩
    · have hfinished := (hrun n (Nat.le_refl n)).1.symm.trans h.finished
      rw [hn] at hfinished
      cases hfinished
    · exact exists_steps_of_le hk hn
  choose! seen state hsteps using hok
  obtain ⟨rfl, rfl⟩ : seen 0 = seen₀ ∧ state 0 = t₀ := by
    cases hsteps 0 (Nat.zero_le n)
    exact ⟨rfl, rfl⟩
  have hstep (k : Nat) (hk : k < n) (hadvanced : Advanced k w.start (state k)) :
      ∃ u, u.disk = w.found (k + 1) ∧ u.printed = (state k).printed ∧
        (w.plan.poll Host.memory (seen k)).run.run u = (.ok (seen (k + 1)), state (k + 1)) ∧
        Advanced (k + 1) w.start (state (k + 1)) := by
    obtain ⟨u, hpoll, hdisk, hprinted, hnext⟩ := step_of_advanced w.plan (seen k)
      w.interval hadvanced (Nat.lt_of_lt_of_le hk h.enough)
    have hsucc := hsteps (k + 1) hk
    rw [Plan.steps, Run.bind_ok (hsteps k (Nat.le_of_lt hk)), hpoll] at hsucc
    rw [hsucc] at hnext
    refine ⟨u, ?_, hprinted, hsucc, hnext⟩
    have hdisk' := (hrun k (Nat.le_of_lt hk)).2.1
    rw [hsteps k (Nat.le_of_lt hk)] at hdisk'
    rw [hdisk, ← hdisk']
    rfl
  have hadvanced (k : Nat) (hk : k ≤ n) : Advanced k w.start (state k) := by
    induction k with
    | zero => exact ⟨hkeeps.changes, by rw [hkeeps.waits, Nat.add_zero], hkeeps.clock⟩
    | succ k ih =>
      obtain ⟨u, -, -, -, hnext⟩ := hstep k hk (ih (Nat.le_of_lt hk))
      exact hnext
  refine ⟨seen, state, hstarted, fun k hk => ?_, fun k hk => ?_⟩
  · have hk' := (hrun k hk).2
    rw [hsteps k hk] at hk'
    exact hk'
  · obtain ⟨u, hdisk, hprinted, hpoll, -⟩ := hstep k hk (hadvanced k (Nat.le_of_lt hk))
    exact ⟨u, hdisk, hprinted, hpoll⟩

/-- Every look finds the site and leaves the pages. -/
lemma Orderly.history (h : w.Orderly n) : ∃ (place : List String) (seen : Nat → Seen),
    seen 0 = [] ∧
    (∀ k ≤ n, w.plan.Looked place (seen k) (w.found k) (seen (k + 1)) (w.disk k)) ∧
    ∀ k < n, ∃ t u counts,
      let rebuilt := w.plan.news (w.found (k + 1)) (seen (k + 1))
      t.disk = w.found (k + 1) ∧ t.printed = (w.run k).2.printed ++ newsLine rebuilt ∧
      (w.plan.buildEach Host.memory rebuilt).run.run t = (.ok counts, u) ∧
      w.disk (k + 1) = u.disk ∧ (w.run (k + 1)).2.printed = u.printed := by
  obtain ⟨seen, state, hstarted, hstates, hpolls⟩ := h.states
  obtain ⟨place, hfirst⟩ := looked_of_started h.tidy hstarted
  have hlooked (k : Nat) (hk : k ≤ n) :
      w.plan.Looked place (k.casesOn [] seen) (w.found k) (seen k) (w.disk k) := by
    induction k with
    | zero =>
      rw [(hstates 0 hk).1]
      exact hfirst
    | succ k ih =>
      obtain ⟨u, hdisk, -, hpoll⟩ := hpolls k hk
      have hstands := (ih (Nat.le_of_lt hk)).stands_after
      have hfound := hstands.edited (Memory.apply_edited hstands.tidy (h.sources k hk))
      rw [(hstates (k + 1) hk).1, ← hdisk]
      exact (looked_of_poll (hdisk ▸ hfound) hpoll).1
  refine ⟨place, fun k => k.casesOn [] seen, rfl, hlooked, fun k hk => ?_⟩
  obtain ⟨u, hdisk, hprinted, hpoll⟩ := hpolls k hk
  obtain ⟨-, counts, hbuild⟩ := looked_of_poll (hdisk ▸ (hlooked (k + 1) hk).stands) hpoll
  rw [hdisk] at hbuild
  refine ⟨announced u _, state (k + 1), counts, hdisk, ?_, hbuild, hstates (k + 1) hk⟩
  rw [(hstates k (Nat.le_of_lt hk)).2, ← hprinted]
  rfl

lemma lookup_eq_recorded {seen : Nat → Seen} (hzero : seen 0 = [])
    (hlooked : ∀ k ≤ n, w.plan.Looked place (seen k) (w.found k) (seen (k + 1)) (w.disk k))
    (hk : k ≤ n) (x : Below) :
    (seen k).lookup x = (w.recorded k x).map fun time => { seconds := time } := by
  induction k with
  | zero =>
    rw [hzero]
    rfl
  | succ k ih =>
    rw [(hlooked k (Nat.le_of_lt hk)).noted, recorded, ih (Nat.le_of_lt hk)]
    split <;> rfl

lemma exists_of_recorded {time : Int} (h : w.recorded k x = some time) :
    ∃ i < k, x ∈ w.plan.sourcesOn (w.found i) ∧
      (w.found i).modified? (w.plan.source x) = some time := by
  induction k with
  | zero => cases h
  | succ k ih =>
    rw [recorded] at h
    split at h
    · rename_i hx
      exact ⟨k, Nat.lt_succ_self k, hx, h⟩
    · obtain ⟨i, hi, hfound⟩ := ih h
      exact ⟨i, Nat.lt_succ_of_lt hi, hfound⟩

lemma mem_news_iff (h : seen.lookup x = (w.recorded k x).map fun time => { seconds := time }) :
    x ∈ w.plan.news (w.found k) seen ↔ x ∈ w.plan.sourcesOn (w.found k) ∧
      (w.found k).modified? (w.plan.source x) ≠ w.recorded k x := by
  have hinjective : Function.Injective fun time : Int => ({ seconds := time } : Moment) :=
    fun a b hab => (Moment.mk.inj hab).1
  rw [Plan.news, List.mem_filter, bne_iff_ne, h, Plan.moment?,
    (Option.map_injective hinjective).ne_iff, ne_comm]

/-- A source whose time is the recorded one stood there already at the look before. -/
lemma Orderly.source_kept (h : w.Orderly n) {seen : Nat → Seen}
    (hlooked : ∀ k ≤ n, w.plan.Looked place (seen k) (w.found k) (seen (k + 1)) (w.disk k))
    (hk : k < n) (hx : x ∈ w.plan.sourcesOn (w.found (k + 1)))
    (htime : (w.found (k + 1)).modified? (w.plan.source x) = w.recorded (k + 1) x) :
    x ∈ w.plan.sourcesOn (w.disk k) ∧
      w.plan.attempt (w.disk k) x = w.plan.attempt (w.found (k + 1)) x := by
  have hnow := (hlooked (k + 1) hk).stands
  have hbefore := (hlooked k (Nat.le_of_lt hk)).stands_after
  obtain ⟨bytes, time, hview, -⟩ := hnow.locate_source hx
  obtain ⟨hfile, hmodified⟩ := hnow.source_of_view hx hview
  -- a time that was recorded is no time of a write that came later
  obtain ⟨i, hi, hxi, hrecorded⟩ := exists_of_recorded (htime.symm.trans hmodified)
  have hthen := (hlooked i (Nat.le_trans (Nat.le_of_lt_succ hi) (Nat.le_of_lt hk))).stands
  obtain ⟨bytes', time', hview', -⟩ := hthen.locate_source hxi
  obtain rfl : time' = time :=
    Option.some.inj ((hthen.source_of_view hxi hview').2.symm.trans hrecorded)
  have hsources := h.sources k hk
  have hview : (w.disk k).root.view (place ++ x) = some (.file bytes time') := by
    rcases Memory.view_apply hbefore.tidy hsources hview with hview | ⟨e, he, hspot, hwritten⟩
    · exact hview
    · have htime := congrArg (Option.bind · Item.time?) hview'
      rw [hwritten, ← hspot] at htime
      exact absurd htime (h.fresh k hk e he i (Nat.le_of_lt_succ hi))
  obtain ⟨hne, hending, haccepted, -⟩ := hnow.mem_sourcesOn.mp hx
  have hx' : x ∈ w.plan.sourcesOn (w.disk k) :=
    hbefore.mem_sourcesOn.mpr ⟨hne, hending, haccepted, bytes, time', hview⟩
  refine ⟨hx', attempt_congr ?_ ?_⟩
  · rw [hfile, (hbefore.source_of_view hx' hview).1]
  · exact (Memory.apply_edited hbefore.tidy hsources).locked.symm

/-- The page of a source is after every look the one that comes of the source. -/
lemma Orderly.page_fresh (h : w.Orderly n) (hk : k ≤ n) (hx : x ∈ w.plan.sourcesOn (w.disk k))
    (hunshared : w.Unshared k x) {html : String}
    (hbuilt : w.plan.attempt (w.disk k) x = .built html) :
    ∃ p, (w.disk k).fileAt (w.plan.page x) = some (p, encode html) := by
  obtain ⟨place, seen, hzero, hlooked, -⟩ := h.history
  -- news are built at once, and else the page of the look before is still there
  have hnews {k : Nat} (hk : k ≤ n) (hx : x ∈ w.plan.sourcesOn (w.disk k))
      (hunshared : w.Unshared k x) (hbuilt : w.plan.attempt (w.disk k) x = .built html)
      (hnews : x ∈ w.plan.news (w.found k) (seen k)) :
      ∃ p, (w.disk k).fileAt (w.plan.page x) = some (p, encode html) := by
    have hlook := hlooked k hk
    have hx' := hlook.mem_sourcesOn.mp hx
    rw [hlook.attempt_eq hx'] at hbuilt
    refine hlook.pages x hnews (fun y hy => ?_) html hbuilt
    exact hlook.stands.unshared hx' (hunshared k (Nat.le_refl k)) y (news_subset _ _ _ hy)
  induction k with
  | zero =>
    refine hnews hk hx hunshared hbuilt ?_
    rw [hzero, (hlooked 0 hk).stands.news_nil]
    exact (hlooked 0 hk).mem_sourcesOn.mp hx
  | succ k ih =>
    have hlook := hlooked (k + 1) hk
    have hx' := hlook.mem_sourcesOn.mp hx
    by_cases hmem : x ∈ w.plan.news (w.found (k + 1)) (seen (k + 1))
    · exact hnews hk hx hunshared hbuilt hmem
    · have htime : (w.found (k + 1)).modified? (w.plan.source x) = w.recorded (k + 1) x := by
        by_contra hne
        exact hmem ((mem_news_iff (lookup_eq_recorded hzero hlooked hk x)).mpr ⟨hx', hne⟩)
      obtain ⟨hx'', hsame⟩ := h.source_kept hlooked hk hx' htime
      rw [hlook.attempt_eq hx', ← hsame] at hbuilt
      obtain ⟨p, hfile⟩ := ih (Nat.le_of_succ_le hk) hx''
        (fun i hi => hunshared i (Nat.le_succ_of_le hi)) hbuilt
      have hedited := Memory.apply_edited (hlooked k (Nat.le_of_succ_le hk)).stands_after.tidy
        (h.sources k hk)
      refine ⟨p, (hlook.page_kept hx' (fun y hy hpage => ?_) hedited).kept _ hfile⟩
      have hne : y ≠ x := fun he => hmem (he ▸ hy)
      exact absurd hpage (hunshared (k + 1) (Nat.le_refl _) y (news_subset _ _ _ hy) hne)

lemma Orderly.page_kept (h : w.Orderly n) (hk : k ≤ n) (hx : x ∈ w.plan.sourcesOn (w.disk k))
    (hbuilt : ∀ y ∈ w.plan.sourcesOn (w.disk k), w.plan.page y = w.plan.page x →
      (w.plan.attempt (w.disk k) y).isBuilt = false) :
    SameFile (w.plan.page x) (w.disk k) (w.before k) := by
  obtain ⟨place, seen, -, hlooked, -⟩ := h.history
  have hlook := hlooked k hk
  refine hlook.page_kept (hlook.mem_sourcesOn.mp hx) (fun y hy hpage => ?_) ?_
  · have hy' := news_subset _ _ _ hy
    rw [← hlook.attempt_eq hy']
    exact hbuilt y (hlook.mem_sourcesOn.mpr hy') hpage
  · cases k with
    | zero => exact .refl _ _
    | succ k =>
      exact Memory.apply_edited (hlooked k (Nat.le_of_succ_le hk)).stands_after.tidy
        (h.sources k hk)

end Watching

/-- The page that comes of a source as it stands on a disk. -/
def Plan.Yields (plan : Plan) (d : Disk) (x : Below) (html : String) : Prop :=
  ∃ text compiled, d.text (plan.source x) = .ok text ∧
    compile text (plan.source x) plan.options = .ok compiled ∧ compiled.page.html = html

lemma isBuilt_of_not_yields (h : ∀ html, ¬ plan.Yields d x html) :
    (plan.attempt d x).isBuilt = false := by
  cases hattempt : plan.attempt d x with
  | built html => exact absurd (attempt_eq_built.mp hattempt) (h html)
  | _ => rfl

/-- While a site is watched, the page of a source that compiles and shares its page with no other
one comes after every poll of the source as it is, and a page that no source yields stays. The
sources that are built at a poll are once each those that were not written when it was recorded. -/
theorem pages_never_stale (w : Watching) {n : Nat} (h : w.Orderly n) :
    (∀ k ≤ n, ∀ x ∈ w.plan.sourcesOn (w.disk k),
      (w.Unshared k x → ∀ html, w.plan.Yields (w.disk k) x html →
        ∃ p, (w.disk k).fileAt (w.plan.page x) = some (p, Text.Utf8.encode html)) ∧
      ((∀ y ∈ w.plan.sourcesOn (w.disk k), w.plan.page y = w.plan.page x →
          ∀ html, ¬ w.plan.Yields (w.disk k) y html) →
        SameFile (w.plan.page x) (w.disk k) (w.before k))) ∧
    ∀ k < n, ∃ rebuilt : List Below, rebuilt.Nodup ∧
      (∀ x, x ∈ rebuilt ↔ x ∈ w.plan.sourcesOn (w.found (k + 1)) ∧
        (w.found (k + 1)).modified? (w.plan.source x) ≠ w.recorded (k + 1) x) ∧
      ∃ t u counts, t.disk = w.found (k + 1) ∧
        t.printed = (w.run k).2.printed ++ newsLine rebuilt ∧
        (w.plan.buildEach Host.memory rebuilt).run.run t = (.ok counts, u) ∧
        w.disk (k + 1) = u.disk ∧ (w.run (k + 1)).2.printed = u.printed := by
  refine ⟨fun k hk x hx => ⟨fun hunshared html hyields => ?_, fun hnone => ?_⟩, fun k hk => ?_⟩
  · exact h.page_fresh hk hx hunshared (attempt_eq_built.mpr hyields)
  · exact h.page_kept hk hx fun y hy hpage => isBuilt_of_not_yields (hnone y hy hpage)
  · obtain ⟨place, seen, hzero, hlooked, hpolls⟩ := h.history
    refine ⟨_, (hlooked (k + 1) hk).stands.nodup_sourcesOn.filter _, fun x => ?_, hpolls k hk⟩
    exact Watching.mem_news_iff (Watching.lookup_eq_recorded hzero hlooked hk x)

/-- A source is mended while another one goes, and then it is broken again: its page stays. -/
theorem pages_never_stale_broken :
    let source (text : String) : Item := .file (Text.Utf8.encode text) 0
    let w : Watching := {
      plan := { folder := ".", outputDir := "out" }
      interval := .finite false 1 0
      start := {
        disk := {
          root := .folder [("site", .folder [("a.lum", source "let ="), ("b.lum", source "fn")])]
          workingDir := "/site" }
        changes := [
          { writes := [("a.lum", source "let x = 1")], removals := ["b.lum"] },
          { writes := [("a.lum", source "let =")] }] } }
    w.Orderly 2 ∧ w.Unshared 1 ["a.lum"] ∧
    ∃ html, w.plan.Yields (w.disk 1) ["a.lum"] html ∧
      ∃ p, (w.disk 1).fileAt (w.plan.page ["a.lum"]) = some (p, Text.Utf8.encode html) ∧
        (w.disk 2).fileAt (w.plan.page ["a.lum"]) = some (p, Text.Utf8.encode html) := by
  intro source w
  have htidy : w.start.disk.root.Tidy := by
    refine .folder (by simp) (by decide +kernel) ?_
    simp only [List.mem_singleton, forall_eq]
    refine .folder (by simp) (by decide +kernel) ?_
    simp only [List.mem_cons, List.not_mem_nil, or_false, forall_eq_or_imp, forall_eq]
    exact ⟨.file, .file⟩
  obtain ⟨hfinished, hmended, hbroken, hfirst, hsecond, hspot⟩ :
      (w.run 2).1.toOption = some 0 ∧ (w.plan.attempt (w.disk 1) ["a.lum"]).isBuilt ∧
      (∀ y ∈ w.plan.sourcesOn (w.disk 2), (w.plan.attempt (w.disk 2) y).isBuilt = false) ∧
      ["a.lum"] ∈ w.plan.sourcesOn (w.disk 1) ∧ ["a.lum"] ∈ w.plan.sourcesOn (w.disk 2) ∧
      (w.disk 1).IsSourceSpot "a.lum" := by decide +kernel
  have horderly : w.Orderly 2 := {
    tidy := htidy
    enough := by decide +kernel
    finished := by
      cases hrun : (w.run 2).1 with
      | error =>
        rw [hrun] at hfinished
        cases hfinished
      | ok =>
        rw [hrun] at hfinished
        rw [Option.some.inj hfinished]
    sources := by
      intro k hk
      obtain rfl | rfl : k = 0 ∨ k = 1 := by omega
      · exact ⟨⟨by decide +kernel, ⟨_, _, rfl⟩, trivial⟩, by decide +kernel, trivial⟩
      · exact ⟨⟨hspot, ⟨_, _, rfl⟩, trivial⟩, trivial⟩
    fresh := by decide +kernel }
  have hunshared : w.Unshared 1 ["a.lum"] := by
    unfold Watching.Unshared
    decide +kernel
  have hpages := (pages_never_stale w horderly).1
  cases hattempt : w.plan.attempt (w.disk 1) ["a.lum"] with
  | built html =>
    have hyields := attempt_eq_built.mp hattempt
    obtain ⟨p, hfile⟩ := (hpages 1 (by decide) ["a.lum"] hfirst).1 hunshared html hyields
    refine ⟨horderly, hunshared, html, hyields, p, hfile, ?_⟩
    refine ((hpages 2 (by decide) ["a.lum"] hsecond).2 ?_).kept _ hfile
    intro y hy _ html' hyields'
    have hbuilt := hbroken y hy
    rw [attempt_eq_built.mpr hyields'] at hbuilt
    cases hbuilt
  | _ =>
    rw [hattempt] at hmended
    cases hmended

end UiScript.Site
