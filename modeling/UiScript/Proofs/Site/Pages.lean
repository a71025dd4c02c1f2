import UiScript.Proofs.Site.Places
import UiScript.Serve.Index

/-!
# What a listing names

The files that a listing names are told once each, in the order of a walk. The pages of two sources
have different paths, unless the name of one source is nothing but points before its ending and the
name of the other one has the ending twice.
-/

namespace UiScript

open List

open Item (isName isProper)
open Listing (Before)

namespace Path

variable {base name : String} {names names' : List String}

/-- A path through a folder is the folder's and that of the names below it. -/
lemma foldl_join (hne : names ≠ []) (h : ∀ name ∈ names, isProper name) (base : String) :
    names.foldl join base = lead base ++ String.intercalate "/" names := by
  induction names generalizing base with
  | nil => exact absurd rfl hne
  | cons name names ih =>
    obtain ⟨hname, hnames⟩ := forall_mem_cons.mp h
    obtain ⟨hisName, hslash⟩ := Disk.isName_of_isProper hname
    have hjoin : join base name = lead base ++ name := join_eq (startsWith_of_notMem hslash)
    rw [foldl_cons, hjoin]
    cases names with
    | nil => rw [String.intercalate_singleton]; rfl
    | cons =>
      have hempty := Disk.isEmpty_of_isName hisName
      have hends : name.endsWith "/" = false := by
        rw [← Bool.not_eq_true, endsWith_slash]
        exact fun hlast => hslash (mem_of_getLast? hlast)
      rw [ih (cons_ne_nil _ _) hnames, lead_append hempty, lead_of_not_endsWith hempty hends,
        String.intercalate_cons_cons, String.append_assoc, String.append_assoc]

/-- Names can be read off their path. -/
lemma intercalate_inj (hne : names ≠ []) (hne' : names' ≠ []) (h : ∀ name ∈ names, isProper name)
    (h' : ∀ name ∈ names', isProper name) :
    String.intercalate "/" names = String.intercalate "/" names' ↔ names = names' := by
  refine ⟨fun heq => ?_, congrArg _⟩
  rw [← (Disk.intercalate_proper hne h).1, heq, (Disk.intercalate_proper hne' h').1]

/-- The name of a file without an ending, where points alone count as a name that has none. -/
lemma splitExtension_source (stem : String) (hslash : '/' ∉ stem.toList) :
    (splitExtension (stem ++ Site.sourceEnding)).1 =
      if stem.toList.all (· == '.') then stem ++ Site.sourceEnding else stem := by
  have hreverse : (stem ++ Site.sourceEnding).toList.reverse =
      'm' :: 'u' :: 'l' :: '.' :: stem.toList.reverse := by
    rw [String.toList_append, reverse_append]
    rfl
  have hnone : '/' ∉ (stem ++ Site.sourceEnding).toList := by
    rw [String.toList_append, mem_append]
    exact not_or.mpr ⟨hslash, by decide⟩
  unfold splitExtension
  rw [splitLast_of_notMem hnone]
  dsimp only
  have hstem : ((('m' :: 'u' :: 'l' :: '.' :: stem.toList.reverse).dropWhile (· != '.')).drop
      1).reverse = stem.toList := by simp
  rw [hreverse, hstem]
  cases stem.toList.all (· == '.') <;> simp

end Path

namespace Site

variable {plan : Plan} {d : Disk} {x y : Below} {listing : Listing} {folder outputDir : String}

/-! ### Pages of different sources -/

/-- Two sources of one folder. There is nothing but points in the name of the first one before its
ending, and the second one has that name with another ending behind it. -/
def Doubled (x y : Below) : Prop :=
  ∃ (init : List String) (points : String), (∀ c ∈ points.toList, c = '.') ∧
    x = init ++ [points ++ sourceEnding] ∧ y = init ++ [points ++ sourceEnding ++ sourceEnding]

lemma exists_stem (hx : x ≠ []) (h : endsAsSource x) :
    ∃ (init : List String) (stem : String), x = init ++ [stem ++ sourceEnding] := by
  obtain rfl | ⟨init, last, rfl⟩ := eq_nil_or_concat x
  · exact absurd rfl hx
  · rw [concat_eq_append] at *
    unfold endsAsSource at h
    rw [getLastD_concat, String.endsWith_eq_endsWith_toSlice, String.Slice.endsWith_string_iff,
      String.copy_toSlice] at h
    obtain ⟨cs, hcs⟩ := h
    have hlast : last = String.ofList cs ++ sourceEnding := by
      rw [← String.toList_inj, String.toList_append, String.toList_ofList, hcs]
    exact ⟨init, String.ofList cs, by rw [hlast]⟩

lemma concat_inj {init init' : List String} {a b : String} :
    init ++ [a] = init' ++ [b] ↔ init = init' ∧ a = b := by
  refine ⟨fun h => ?_, fun ⟨hinit, hlast⟩ => by rw [hinit, hlast]⟩
  obtain ⟨hinit, hlast⟩ := append_inj' h rfl
  exact ⟨hinit, singleton_inj.mp hlast⟩

lemma doubled_iff {init init' : List String} {stem stem' : String} :
    Doubled (init ++ [stem ++ sourceEnding]) (init' ++ [stem' ++ sourceEnding]) ↔
      init = init' ∧ stem.toList.all (· == '.') ∧ stem' = stem ++ sourceEnding := by
  constructor
  · rintro ⟨init₀, points, hpoints, hx, hy⟩
    obtain ⟨rfl, hstem⟩ := concat_inj.mp hx
    obtain ⟨rfl, hstem'⟩ := concat_inj.mp hy
    obtain rfl := (String.append_left_inj _).mp hstem
    exact ⟨rfl, by simpa using hpoints, (String.append_left_inj _).mp hstem'⟩
  · rintro ⟨rfl, hpoints, rfl⟩
    exact ⟨init, stem, by simpa using hpoints, rfl, rfl⟩

/-- A stem is kept with its ending if it is nothing but points. -/
lemma pageNames_source (init : List String) {stem : String} (hslash : '/' ∉ stem.toList) :
    Below.pageNames (init ++ [stem ++ sourceEnding]) =
      init ++ [(if stem.toList.all (· == '.') then stem ++ sourceEnding else stem) ++
        pageEnding] := by
  rw [Below.pageNames, Path.withEnding, dropLast_concat, getLastD_concat,
    Path.splitExtension_source stem hslash]

lemma pageNames_eq_iff (hx : x ≠ []) (hy : y ≠ []) (hsource : endsAsSource x)
    (hsource' : endsAsSource y) (hnames : ∀ name ∈ x, isProper name)
    (hnames' : ∀ name ∈ y, isProper name) :
    x.pageNames = y.pageNames ↔ x = y ∨ Doubled x y ∨ Doubled y x := by
  obtain ⟨init, stem, rfl⟩ := exists_stem hx hsource
  obtain ⟨init', stem', rfl⟩ := exists_stem hy hsource'
  have hslash {init : List String} {stem : String}
      (h : ∀ name ∈ init ++ [stem ++ sourceEnding], isProper name) : '/' ∉ stem.toList := by
    have hlast := (Disk.isName_of_isProper (h (stem ++ sourceEnding) (by simp))).2
    rw [String.toList_append, mem_append, not_or] at hlast
    exact hlast.1
  -- an ending is no point
  have hending (stem : String) : (stem ++ sourceEnding).toList.all (· == '.') = false := by
    rw [String.toList_append, all_append]
    exact Bool.and_false _
  rw [pageNames_source init (hslash hnames), pageNames_source init' (hslash hnames'), concat_inj,
    concat_inj, doubled_iff, doubled_iff, String.append_left_inj, String.append_left_inj]
  have hleft := hending stem
  have hright := hending stem'
  have hcancel : stem ++ sourceEnding = stem' ++ sourceEnding ↔ stem = stem' :=
    String.append_left_inj _
  clear hslash hnames hnames' hsource hsource' hending
  cases hpoints : stem.toList.all (· == '.') <;> cases hpoints' : stem'.toList.all (· == '.') <;>
    grind

lemma page_eq_iff (hlisting : listing.Proper) (hx : x ∈ sources plan.settings listing)
    (hy : y ∈ sources plan.settings listing) :
    plan.page x = plan.page y ↔ x = y ∨ Doubled x y ∨ Doubled y x := by
  have hproper {x : Below} (hx : x ∈ sources plan.settings listing) :
      x ≠ [] ∧ endsAsSource x ∧ ∀ name ∈ x, isProper name := by
    obtain ⟨hx, hends⟩ := mem_filter.mp (mem_of_mem_filter hx)
    obtain ⟨hne, hnames⟩ := hlisting.names hx
    exact ⟨hne, hends, hnames⟩
  have hstart {x : Below} (hne : x ≠ []) (hnames : ∀ name ∈ x, isProper name) :
      (String.intercalate "/" x.pageNames).startsWith "/" = false :=
    (Disk.intercalate_proper (pageNames_ne_nil x) (isProper_pageNames hnames hne)).2.2
  obtain ⟨hne, hsource, hnames⟩ := hproper hx
  obtain ⟨hne', hsource', hnames'⟩ := hproper hy
  rw [page_eq hnames hne, page_eq hnames' hne', Path.join_eq (hstart hne hnames),
    Path.join_eq (hstart hne' hnames'), String.append_right_inj,
    Path.intercalate_inj (pageNames_ne_nil x) (pageNames_ne_nil y) (isProper_pageNames hnames hne)
      (isProper_pageNames hnames' hne'), pageNames_eq_iff hne hne' hsource hsource' hnames hnames']

lemma not_doubled_self (x : Below) : ¬ Doubled x x := by
  rintro ⟨init, points, -, hx, hx'⟩
  have hlength := congrArg String.length (concat_inj.mp (hx.symm.trans hx')).2
  simp [sourceEnding] at hlength

/-- The pages of two sources have one path just if the sources are doubled. The page of a source is
not touched while another one is built whose page has another path. -/
theorem pages_shared (plan : Plan) (s : Memory) (hlisting : (s.disk.listing plan.folder).Proper) :
    let sources := plan.sourcesOn s.disk
    (∀ x ∈ sources, ∀ y ∈ sources,
      plan.page x = plan.page y ↔ x = y ∨ Doubled x y ∨ Doubled y x) ∧
    ((sources.map plan.page).Nodup ↔ ∀ x ∈ sources, ∀ y ∈ sources, ¬ Doubled x y) ∧
    (s.disk.root.Tidy → s.disk.isFolder plan.folder →
      ∀ x ∈ sources, ∀ y ∈ sources, plan.page x ≠ plan.page y →
        SameFile (plan.page x) ((plan.buildOne Host.memory y).run.run s).2.disk s.disk) := by
  intro sources
  have hpages (x : Below) (hx : x ∈ sources) (y : Below) (hy : y ∈ sources) :
      plan.page x = plan.page y ↔ x = y ∨ Doubled x y ∨ Doubled y x :=
    page_eq_iff hlisting hx hy
  refine ⟨hpages, ?_, fun htidy hfolder x hx y hy hne => ?_⟩
  · have hnodup : sources.Nodup := (hlisting.nodup.filter _).filter _
    rw [List.nodup_map_iff_inj_on hnodup]
    refine ⟨fun h x hx y hy hdoubled => ?_, fun h x hx y hy hpage => ?_⟩
    · obtain rfl := h x hx y hy ((hpages x hx y hy).mpr (.inr (.inl hdoubled)))
      exact not_doubled_self x hdoubled
    · rcases (hpages x hx y hy).mp hpage with heq | hdoubled | hdoubled
      · exact heq
      · exact absurd hdoubled (h x hx y hy)
      · exact absurd hdoubled (h y hy x hx)
  · obtain ⟨place, hstands⟩ := exists_stands htidy hfolder
    obtain ⟨t, hrun, hdisk, -⟩ := exists_buildOne plan s y
    rw [hrun, hdisk]
    have hedited : Disk.Edited (fun p => s.disk.resolve (plan.page y) = some p) s.disk
        (plan.outcome s.disk y).disk := by
      cases hcase : plan.attempt s.disk y with
      | built => exact (outcome_built hcase).1
      | refused => rw [outcome_refused hcase]; exact .refl _ _
      | stopped => rw [outcome_stopped hcase]; exact .refl _ _
    exact .of_edited hedited fun p hp hp' => hne (hstands.page_eq_of_resolve hy hx hp' hp)

/-- Two doubled sources beside another one. -/
theorem pages_shared_points :
    let plan : Plan := { folder := ".", outputDir := "out" }
    let s : Memory := { disk := {
      root := .folder [("site", .folder [(".lum", .file [] 0), (".lum.lum", .file [] 0),
        ("a.lum", .file [] 0)])]
      workingDir := "/site" } }
    (s.disk.listing plan.folder).Proper ∧
    plan.sourcesOn s.disk = [[".lum"], [".lum.lum"], ["a.lum"]] ∧
    Doubled [".lum"] [".lum.lum"] ∧ plan.page [".lum"] = plan.page [".lum.lum"] ∧
    plan.page [".lum"] ≠ plan.page ["a.lum"] := by
  intro plan s
  have htidy : s.disk.root.Tidy :=
    .folder (by decide) (by decide +kernel) (List.forall_mem_singleton.mpr
      (.folder (by decide) (by decide +kernel) (by simp [Item.Tidy.file])))
  have hfolder : s.disk.isFolder plan.folder := by decide +kernel
  have hsources : plan.sourcesOn s.disk = [[".lum"], [".lum.lum"], ["a.lum"]] := by decide +kernel
  have hdoubled : Doubled [".lum"] [".lum.lum"] := ⟨[], "", by simp, rfl, rfl⟩
  obtain ⟨place, hstands⟩ := exists_stands htidy hfolder
  have hpages := (pages_shared plan s hstands.proper_listing).1
  rw [hsources] at hpages
  refine ⟨hstands.proper_listing, hsources, hdoubled, ?_, by decide +kernel⟩
  exact (hpages [".lum"] (by simp) [".lum.lum"] (by simp)).mpr (.inr (.inl hdoubled))

/-! ### Files in the order of a walk -/

/-- Texts that name the files of a kind, each once and in the order of a walk. -/
structure IsWalk (found : Below → Prop) (text : Below → String) (texts : List String) : Prop where
  exists_files : ∃ files : List Below, texts = files.map text ∧ (∀ x, x ∈ files ↔ found x) ∧
    files.Pairwise Before
  nodup : texts.Nodup
  /-- The texts ascend just if the order of a walk is the one of texts for these files. -/
  ascending : texts.Pairwise (· < ·) ↔ ∀ x y, found x → found y → Before x y → text x < text y

lemma isWalk_of_files {found : Below → Prop} {text : Below → String} {files : List Below}
    (hfiles : ∀ x, x ∈ files ↔ found x) (hwalk : files.Pairwise Before)
    (hinj : ∀ x ∈ files, ∀ y ∈ files, text x = text y → x = y) :
    IsWalk found text (files.map text) where
  exists_files := ⟨files, rfl, hfiles, hwalk⟩
  nodup := by
    refine (nodup_map_iff_inj_on (hwalk.imp fun {x y} hbefore => ?_)).mpr hinj
    rintro rfl
    exact lt_irrefl _ hbefore
  ascending := by
    rw [pairwise_map]
    simp only [← hfiles]
    refine ⟨fun h x y hx hy hbefore => ?_, fun h => ?_⟩
    · let both (a b : Below) : Prop := Before a b ∧ text a < text b ∨ Before b a ∧ text b < text a
      have hboth : files.Pairwise both := (hwalk.and h).imp Or.inl
      have : Std.Symm both := ⟨fun _ _ => Or.symm⟩
      have hne : x ≠ y := by
        rintro rfl
        exact lt_irrefl _ hbefore
      rcases hboth.forall hx hy hne with ⟨-, hlt⟩ | ⟨hafter, -⟩
      · exact hlt
      · exact absurd hbefore (lt_asymm hafter)
    · exact hwalk.imp_of_mem fun hx hy hbefore => h _ _ hx hy hbefore

def FileBelow (d : Disk) (place : List String) (ending : String) (x : Below) : Prop :=
  x ≠ [] ∧ (x.getLastD "").endsWith ending ∧
    ∃ bytes time, d.root.get? (place ++ x) = some (.file bytes time)

/-- Where there are no links, the pages below a folder and the sources of a site are told each once
and in the order of a walk. -/
theorem listings_walk {d : Disk} (htidy : d.root.Tidy) {folder : String} {place : List String}
    {entries : List (String × Item)}
    (hfolder : d.locate folder = .ok (.found place (.folder entries))) (settings : Settings) :
    IsWalk (FileBelow d place pageEnding) Below.relative (Serve.pages (d.listing folder)) ∧
    IsWalk (fun x => FileBelow d place sourceEnding x ∧ settings.accepts x.relative)
      (fun x => x.path folder)
      ((Site.sources settings (d.listing folder)).map fun x => x.path folder) := by
  have hproper := Disk.proper_listing htidy hfolder
  have hmem (ending : String) (x : Below) :
      x ∈ filesEndingIn ending (d.listing folder) ↔ FileBelow d place ending x := by
    rw [filesEndingIn, List.mem_filter, Disk.mem_listing htidy hfolder, FileBelow]
    tauto
  have hrelative {x y : Below} (hx : x ∈ (d.listing folder).paths)
      (hy : y ∈ (d.listing folder).paths) (h : x.relative = y.relative) : x = y := by
    obtain ⟨hne, hnames⟩ := hproper.names hx
    obtain ⟨hne', hnames'⟩ := hproper.names hy
    exact (Path.intercalate_inj hne hne' hnames hnames').mp h
  have hpath {x : Below} (hx : x ∈ (d.listing folder).paths) :
      x.path folder = Path.lead folder ++ x.relative := by
    obtain ⟨hne, hnames⟩ := hproper.names hx
    exact Path.foldl_join hne hnames folder
  constructor
  · refine isWalk_of_files (hmem pageEnding) (hproper.walk.filter _) fun x hx y hy h => ?_
    exact hrelative (List.mem_of_mem_filter hx) (List.mem_of_mem_filter hy) h
  · refine isWalk_of_files (fun x => ?_) ((hproper.walk.filter _).filter _) fun x hx y hy h => ?_
    · rw [sources, List.mem_filter, hmem]
    · have hx := List.mem_of_mem_filter (List.mem_of_mem_filter hx)
      have hy := List.mem_of_mem_filter (List.mem_of_mem_filter hy)
      rw [hpath hx, hpath hy, String.append_right_inj] at h
      exact hrelative hx hy h

/-- A file comes before those of a folder with a smaller name, so the paths do not ascend. -/
theorem listings_walk_folder :
    let d : Disk := { root := .folder [("a", .folder [("b.html", .file [] 0)]),
      ("z.html", .file [] 0), ("z.lum", .file [] 0)] }
    d.root.Tidy ∧ (∃ entries, d.locate "/" = .ok (.found [] (.folder entries))) ∧
    Serve.pages (d.listing "/") = ["z.html", "a/b.html"] ∧
    ¬ (Serve.pages (d.listing "/")).Pairwise (· < ·) ∧
    (Site.sources {} (d.listing "/")).map (fun x => x.path "/") = ["/z.lum"] := by
  intro d
  have htidy : d.root.Tidy := by
    refine .folder (by decide) (by decide +kernel) ?_
    have hfolder : Item.Tidy (.folder [("b.html", .file [] 0)]) :=
      .folder (by decide) (by decide +kernel) (by simp [Item.Tidy.file])
    simp [hfolder, Item.Tidy.file]
  have hlocate : ∃ entries, d.locate "/" = .ok (.found [] (.folder entries)) := by
    have hparts : Path.segments (Path.join d.workingDir "/") = ["", ""] := by decide +kernel
    simp only [Disk.locate_eq_ok, hparts]
    exact ⟨_, rfl, .skip rfl rfl (.skip rfl rfl (.here rfl))⟩
  refine ⟨htidy, hlocate, by decide +kernel, fun h => ?_, by decide +kernel⟩
  obtain ⟨entries, hlocate⟩ := hlocate
  have hascending := (listings_walk htidy hlocate {}).1.ascending.mp h ["z.html"] ["a", "b.html"]
    ⟨by simp, by decide +kernel, _, _, rfl⟩ ⟨by simp, by decide +kernel, _, _, rfl⟩
    (Listing.before_above _ _ (by simp))
  exact absurd hascending (by decide +kernel)

end Site

end UiScript
