import UiScript.Proofs.Files.Listing
import UiScript.Proofs.Site.Isolation

/-!
# Where sources and pages stand

On a disk without links the sources of a site are the files below its folder whose names end as
those of sources do. The place of a page is read off its path, so pages with different paths are at
different places, and no page is at the place of a source.
-/

namespace UiScript.Site

open List

open Item (isName isProper onward Plain)

variable {plan : Plan} {d d' : Disk} {x y : Below} {place p : List String}

def endsAsSource (p : List String) : Bool := (p.getLastD "").endsWith sourceEnding

lemma endsAsSource_append (hne : x ≠ []) (p : List String) :
    endsAsSource (p ++ x) = endsAsSource x := by
  obtain rfl | ⟨init, last, rfl⟩ := eq_nil_or_concat x
  · exact absurd rfl hne
  · unfold endsAsSource
    rw [concat_eq_append, ← append_assoc, getLastD_concat, getLastD_concat]

/-! ### Pages -/

def Below.pageNames (x : Below) : List String := Path.withEnding pageEnding x

lemma pageNames_ne_nil (x : Below) : x.pageNames ≠ [] := by
  unfold Below.pageNames Path.withEnding
  exact append_ne_nil_of_right_ne_nil _ (cons_ne_nil _ _)

lemma endsAsSource_pageNames (x : Below) : endsAsSource x.pageNames = false := by
  unfold endsAsSource Below.pageNames Path.withEnding
  rw [getLastD_concat, String.endsWith_eq_endsWith_toSlice, ← Bool.not_eq_true,
    String.Slice.endsWith_string_iff, String.copy_toSlice, String.toList_append]
  intro h
  -- the last characters differ
  have hlast := IsSuffix.getLast h (by decide)
  rw [getLast_append_of_ne_nil _ (by decide)] at hlast
  exact absurd hlast (by decide)

lemma isName_of_getLast? {name : String} {c : Char} (h : name.toList.getLast? = some c)
    (hc : c ≠ '.') : isName name := by
  refine Item.isName_iff.mpr ⟨fun hname => ?_, fun hname => ?_⟩
  · rcases Bool.or_eq_true_iff.mp hname with hname | hname
    · rw [String.isEmpty_iff.mp hname] at h
      cases h
    · rw [beq_iff_eq.mp hname] at h
      exact hc (Option.some.inj h).symm
  · rw [beq_iff_eq.mp hname] at h
    exact hc (Option.some.inj h).symm

lemma isProper_pageNames (hnames : ∀ name ∈ x, isProper name) (hne : x ≠ []) :
    ∀ name ∈ x.pageNames, isProper name := by
  unfold Below.pageNames Path.withEnding
  refine forall_mem_append.mpr ⟨fun name hname => hnames name (dropLast_subset x hname),
    forall_mem_singleton.mpr ?_⟩
  have hlast : x.getLastD "" ∈ x := by
    rw [getLastD_eq_getLast?, getLast?_eq_some_getLast hne]
    exact getLast_mem hne
  have hslash := Path.slash_notMem_splitExtension (Disk.isName_of_isProper (hnames _ hlast)).2
  have hname : isName ((Path.splitExtension (x.getLastD "")).1 ++ pageEnding) := by
    refine isName_of_getLast? (c := 'l') ?_ (by decide)
    rw [String.toList_append, getLast?_append_of_ne_nil _ (by decide)]
    rfl
  simp only [isProper, hname, String.toList_append, Bool.true_and, Bool.not_eq_true',
    contains_eq_mem, decide_eq_false_iff_not, mem_append, not_or]
  exact ⟨hslash, by decide⟩

lemma page_eq (hnames : ∀ name ∈ x, isProper name) (hne : x ≠ []) :
    plan.page x = Path.join plan.outputDir (String.intercalate "/" x.pageNames) := by
  unfold Plan.page pagePath Below.relative Below.pageNames
  rw [Path.splitExtension_intercalate hne fun name hname =>
    (Disk.isName_of_isProper (hnames name hname)).2]

def Plan.outputPlace (plan : Plan) (d : Disk) : List String :=
  onward [] (Path.segments (Path.join d.workingDir plan.outputDir))

lemma resolve_page (hplain : d.root.Plain) (hnames : ∀ name ∈ x, isProper name) (hne : x ≠ []) :
    d.resolve (plan.page x) = some (plan.outputPlace d ++ x.pageNames) := by
  rw [page_eq hnames hne]
  exact Disk.resolve_join hplain (pageNames_ne_nil x) (isProper_pageNames hnames hne)

/-! ### Sources -/

structure Plan.Stands (plan : Plan) (place : List String) (d : Disk) : Prop where
  tidy : d.root.Tidy
  folder : ∃ entries, d.locate plan.folder = .ok (.found place (.folder entries))

lemma exists_stands (htidy : d.root.Tidy) (h : d.isFolder plan.folder) :
    ∃ place, plan.Stands place d := by
  unfold Disk.isFolder Disk.item at h
  cases hlocate : d.locate plan.folder with
  | error => simp [hlocate] at h
  | ok spot =>
    cases spot with
    | free => simp [hlocate] at h
    | found place item =>
      cases item with
      | file | link => simp [hlocate] at h
      | folder entries => exact ⟨place, htidy, entries, hlocate⟩

namespace Plan.Stands

variable (h : plan.Stands place d)
include h

lemma plain : d.root.Plain := h.tidy.no_link

lemma edited {written : List String → Prop} (hedited : Disk.Edited written d d') :
    plan.Stands place d' := by
  obtain ⟨entries, hlocate⟩ := h.folder
  have hview := Item.view_of_get? (Disk.locate_eq_ok.mp hlocate).2.get?_found
  obtain ⟨entries', hitem⟩ := Item.view_eq_folder.mp (hedited.root.folder hview)
  exact ⟨hedited.root.tidy h.tidy, entries', hedited.locate hlocate rfl hitem⟩

/-- The sources are the files below the folder that are named so and let through. -/
lemma mem_sourcesOn : x ∈ plan.sourcesOn d ↔
    x ≠ [] ∧ endsAsSource x ∧ plan.settings.accepts x.relative ∧
      ∃ bytes time, d.root.view (place ++ x) = some (.file bytes time) := by
  obtain ⟨entries, hlocate⟩ := h.folder
  unfold Plan.sourcesOn Site.sources filesEndingIn
  simp only [mem_filter, Disk.mem_listing h.tidy hlocate, Item.view_eq_file, endsAsSource]
  tauto

lemma proper_listing : (d.listing plan.folder).Proper := by
  obtain ⟨entries, hlocate⟩ := h.folder
  exact Disk.proper_listing h.tidy hlocate

lemma nodup_sourcesOn : (plan.sourcesOn d).Nodup :=
  (h.proper_listing.nodup.filter _).filter _

section Source

variable (hx : x ∈ plan.sourcesOn d)
include hx

lemma names : ∀ name ∈ x, isProper name :=
  (h.proper_listing.names (mem_of_mem_filter (mem_of_mem_filter hx))).2

/-- The path of a source leads to it. -/
lemma locate_source : ∃ bytes time, d.root.view (place ++ x) = some (.file bytes time) ∧
      d.locate (plan.source x) = .ok (.found (place ++ x) (.file bytes time)) := by
  obtain ⟨entries, hlocate⟩ := h.folder
  obtain ⟨hne, -, -, bytes, time, hview⟩ := h.mem_sourcesOn.mp hx
  exact ⟨bytes, time, hview, Disk.locate_names h.plain hlocate hne (h.names hx)
    (Item.view_eq_file.mp hview)⟩

/-- What is seen of a source through its path. -/
lemma source_of_view {bytes : List UInt8} {time : Int}
    (hview : d.root.view (place ++ x) = some (.file bytes time)) :
    d.fileAt (plan.source x) = some (place ++ x, bytes) ∧
      d.modified? (plan.source x) = some time := by
  obtain ⟨bytes', time', hview', hlocate⟩ := h.locate_source hx
  obtain ⟨rfl, rfl⟩ := Item.file.inj (Option.some.inj (hview.symm.trans hview'))
  refine ⟨Disk.fileAt_eq_some.mpr ⟨time, hlocate⟩, ?_⟩
  unfold Disk.modified? Disk.item
  rw [hlocate]

lemma resolve_source : d.resolve (plan.source x) = some (place ++ x) := by
  obtain ⟨bytes, time, -, hlocate⟩ := h.locate_source hx
  exact Disk.resolve_of_locate hlocate

lemma resolve_page : d.resolve (plan.page x) = some (plan.outputPlace d ++ x.pageNames) :=
  Site.resolve_page h.plain (h.names hx) (h.mem_sourcesOn.mp hx).1

lemma endsAsSource_page (hp : d.resolve (plan.page x) = some p) : endsAsSource p = false := by
  rw [h.resolve_page hx] at hp
  rw [← Option.some.inj hp, endsAsSource_append (pageNames_ne_nil x), endsAsSource_pageNames]

/-- Pages at one place have one path. -/
lemma page_eq_of_resolve (hy : y ∈ plan.sourcesOn d) (hp : d.resolve (plan.page x) = some p)
    (hp' : d.resolve (plan.page y) = some p) : plan.page y = plan.page x := by
  rw [h.resolve_page hx] at hp
  rw [h.resolve_page hy, ← hp] at hp'
  have hnames := append_cancel_left (Option.some.inj hp')
  rw [page_eq (h.names hx) (h.mem_sourcesOn.mp hx).1,
    page_eq (h.names hy) (h.mem_sourcesOn.mp hy).1, hnames]

lemma unshared (hpage : ∀ y ∈ plan.sourcesOn d, y ≠ x → plan.page y ≠ plan.page x) :
    plan.Unshared d (plan.sourcesOn d) x :=
  fun y hy hne _ hp hp' => hpage y hy hne.symm (h.page_eq_of_resolve hx hy hp hp')

end Source

lemma steady : plan.Steady d (plan.sourcesOn d) where
  sources x hx y hy p hp hp' := by
    have hpage := h.endsAsSource_page hx hp
    rw [h.resolve_source hy] at hp'
    obtain ⟨hne, hsource, -⟩ := h.mem_sourcesOn.mp hy
    rw [← Option.some.inj hp', endsAsSource_append hne, hsource] at hpage
    cases hpage
  reached x hx _ _ _ := by
    obtain ⟨bytes, time, -, hlocate⟩ := h.locate_source hx
    rw [Disk.fileAt_eq_some.mpr ⟨time, hlocate⟩]
    rfl

/-! ### Pages are written -/

variable {written : List String → Prop}

omit h in
lemma not_written_source (hwritten : ∀ p, written p → endsAsSource p = false) (hne : x ≠ [])
    (hsource : endsAsSource x) : ¬ written (place ++ x) := by
  intro hp
  have hending := hwritten _ hp
  rw [endsAsSource_append hne, hsource] at hending
  cases hending

lemma mem_sourcesOn_edited (hedited : Disk.Edited written d d')
    (hwritten : ∀ p, written p → endsAsSource p = false) :
    x ∈ plan.sourcesOn d' ↔ x ∈ plan.sourcesOn d := by
  rw [(h.edited hedited).mem_sourcesOn, h.mem_sourcesOn]
  refine and_congr_right fun hne => and_congr_right fun hsource => and_congr_right fun _ => ?_
  exact exists_congr fun bytes => exists_congr fun time =>
    hedited.root.file (not_written_source hwritten hne hsource) bytes time

/-- Sources are seen as before while only pages are written. -/
lemma source_edited (hedited : Disk.Edited written d d')
    (hwritten : ∀ p, written p → endsAsSource p = false) (hx : x ∈ plan.sourcesOn d) :
    d'.fileAt (plan.source x) = d.fileAt (plan.source x) ∧
      d'.modified? (plan.source x) = d.modified? (plan.source x) := by
  obtain ⟨hne, hsource, -, bytes, time, hview⟩ := h.mem_sourcesOn.mp hx
  have hview' :=
    (hedited.root.file (not_written_source hwritten hne hsource) bytes time).mpr hview
  have hx' := (h.mem_sourcesOn_edited hedited hwritten).mpr hx
  obtain ⟨hfile, htime⟩ := h.source_of_view hx hview
  obtain ⟨hfile', htime'⟩ := (h.edited hedited).source_of_view hx' hview'
  exact ⟨hfile'.trans hfile.symm, htime'.trans htime.symm⟩

end Plan.Stands

end UiScript.Site
