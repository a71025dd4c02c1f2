import Mathlib.Data.List.Sort
import Mathlib.Data.Prod.Lex
import Mathlib.Data.String.Basic
import UiScript.Proofs.Files.Plain

/-!
# Listings of trees

A listing holds each file below a folder once, by the names on the way to it, in the order of a
walk: the files of a folder come by name before those of its folders, and these come folder by
folder.
-/

namespace UiScript

open List

namespace Listing

variable {α : Type} {name : α → String}

lemma sortByName_eq (as : List α) :
    sortByName name as = as.insertionSort fun a b => name a ≤ name b := by
  have hinsert (a : α) (as : List α) :
      insertByName name a as = as.orderedInsert (fun a b => name a ≤ name b) a := by
    induction as with
    | nil => rfl
    | cons b as ih =>
      rw [insertByName, orderedInsert_cons, ih]
      by_cases h : name a ≤ name b
      · rw [if_neg (not_lt.mpr h), if_pos h]
      · rw [if_pos (not_le.mp h), if_neg h]
  induction as with
  | nil => rfl
  | cons a as ih => rw [sortByName, insertionSort_cons, ih, hinsert]

lemma sortByName_perm (as : List α) : (sortByName name as).Perm as := by
  rw [sortByName_eq]
  exact perm_insertionSort _ as

/-- Entries with different names are sorted strictly. -/
lemma sortByName_sorted {as : List α} (h : (as.map name).Nodup) :
    (sortByName name as).Pairwise fun a b => name a < name b := by
  have hnodup : ((sortByName name as).map name).Nodup :=
    ((sortByName_perm as).map name).nodup_iff.mpr h
  rw [sortByName_eq] at hnodup ⊢
  have hsorted := pairwise_insertionSort (fun a b => name a ≤ name b) as
  exact (hsorted.and (pairwise_map.mp hnodup)).imp fun h => lt_of_le_of_ne h.1 h.2

lemma pathsOfFolders_eq_map (folders : List (String × Listing)) :
    pathsOfFolders folders = folders.map fun e => (e.1, e.2.paths) := by
  induction folders with
  | nil => rfl
  | cons e folders ih =>
    obtain ⟨name, listing⟩ := e
    rw [pathsOfFolders, ih, map_cons]

lemma mem_paths {files : List String} {folders : List (String × Listing)} {x : List String} :
    x ∈ (mk files folders).paths ↔ (∃ name ∈ files, x = [name]) ∨
      ∃ e ∈ folders, ∃ y ∈ e.2.paths, x = e.1 :: y := by
  rw [paths, mem_append, mem_map, mem_flatMap, pathsOfFolders_eq_map]
  simp only [(sortByName_perm _).mem_iff, mem_map, exists_exists_and_eq_and]
  simp only [eq_comm]

/-- What the order of a walk compares, part by part: whether the part is a folder, and its name. -/
def walkKey : List String → List (Bool ×ₗ String)
  | [] => []
  | [name] => [toLex (false, name)]
  | name :: more => toLex (true, name) :: walkKey more

/-- The first path comes before the second one in a walk. -/
def Before (x y : List String) : Prop := walkKey x < walkKey y

lemma walkKey_cons (name : String) {x : List String} (hx : x ≠ []) :
    walkKey (name :: x) = toLex (true, name) :: walkKey x := by
  cases x with
  | nil => exact absurd rfl hx
  | cons => rfl

lemma before_file {a b : String} (h : a < b) : Before [a] [b] :=
  .rel (Prod.Lex.toLex_lt_toLex.mpr (.inr ⟨rfl, h⟩))

lemma before_above (a b : String) {y : List String} (hy : y ≠ []) : Before [a] (b :: y) := by
  rw [Before, walkKey_cons b hy]
  exact .rel (Prod.Lex.toLex_lt_toLex.mpr (.inl Bool.false_lt_true))

lemma before_folder {a b : String} {x y : List String} (hx : x ≠ []) (hy : y ≠ []) (h : a < b) :
    Before (a :: x) (b :: y) := by
  rw [Before, walkKey_cons a hx, walkKey_cons b hy]
  exact .rel (Prod.Lex.toLex_lt_toLex.mpr (.inr ⟨rfl, h⟩))

lemma before_inside (a : String) {x y : List String} (hx : x ≠ []) (hy : y ≠ [])
    (h : Before x y) : Before (a :: x) (a :: y) := by
  rw [Before, walkKey_cons a hx, walkKey_cons a hy]
  exact .cons h

/-- A listing as folders give it: names are proper, and those of files are different, as are those
of folders. -/
inductive Proper : Listing → Prop
  | mk {files : List String} {folders : List (String × Listing)} (hfiles : files.Nodup)
      (hfolders : (folders.map Prod.fst).Nodup)
      (hnames : ∀ name ∈ files ++ folders.map Prod.fst, Item.isProper name)
      (h : ∀ e ∈ folders, Proper e.2) : Proper (.mk files folders)

lemma Proper.names {listing : Listing} (h : listing.Proper) {x : List String}
    (hx : x ∈ listing.paths) : x ≠ [] ∧ ∀ name ∈ x, Item.isProper name := by
  induction h generalizing x with
  | mk _ _ hnames _ ih =>
    obtain ⟨hfiles, hfolders⟩ := forall_mem_append.mp hnames
    rcases mem_paths.mp hx with ⟨name, hname, rfl⟩ | ⟨e, he, y, hy, rfl⟩
    · exact ⟨cons_ne_nil _ _, forall_mem_singleton.mpr (hfiles name hname)⟩
    · refine ⟨cons_ne_nil _ _, forall_mem_cons.mpr ⟨?_, (ih e he hy).2⟩⟩
      exact hfolders e.1 (mem_map_of_mem he)

lemma Proper.walk {listing : Listing} (h : listing.Proper) : listing.paths.Pairwise Before := by
  induction h with
  | @mk files folders hfiles hfolders _ hproper ih =>
    rw [paths, pathsOfFolders_eq_map, pairwise_append]
    have hsorted : (sortByName Prod.fst (folders.map fun e => (e.1, e.2.paths))).Pairwise
        fun e e' => e.1 < e'.1 := sortByName_sorted (by rwa [map_map])
    have hbelow : ∀ e ∈ sortByName Prod.fst (folders.map fun e => (e.1, e.2.paths)),
        ∃ e' ∈ folders, e = (e'.1, e'.2.paths) := by
      intro e he
      obtain ⟨e', he', rfl⟩ := mem_map.mp ((sortByName_perm _).mem_iff.mp he)
      exact ⟨e', he', rfl⟩
    refine ⟨?_, pairwise_flatMap.mpr ⟨fun e he => ?_, ?_⟩, fun x hx y hy => ?_⟩
    · have hnames : (files.map id).Nodup := by rwa [map_id]
      exact pairwise_map.mpr ((sortByName_sorted hnames).imp before_file)
    · obtain ⟨e', he', rfl⟩ := hbelow e he
      refine pairwise_map.mpr ((ih e' he').imp_of_mem fun hx hy hbefore => ?_)
      exact before_inside _ ((hproper e' he').names hx).1 ((hproper e' he').names hy).1 hbefore
    · refine hsorted.imp_of_mem fun {e e'} he he' hlt x hx y hy => ?_
      obtain ⟨f, hf, rfl⟩ := hbelow e he
      obtain ⟨f', hf', rfl⟩ := hbelow e' he'
      obtain ⟨u, hu, rfl⟩ := mem_map.mp hx
      obtain ⟨v, hv, rfl⟩ := mem_map.mp hy
      exact before_folder ((hproper f hf).names hu).1 ((hproper f' hf').names hv).1 hlt
    · obtain ⟨a, -, rfl⟩ := mem_map.mp hx
      obtain ⟨e, he, hy⟩ := mem_flatMap.mp hy
      obtain ⟨f, hf, rfl⟩ := hbelow e he
      obtain ⟨v, hv, rfl⟩ := mem_map.mp hy
      exact before_above a _ ((hproper f hf).names hv).1

lemma Proper.nodup {listing : Listing} (h : listing.Proper) : listing.paths.Nodup := by
  refine h.walk.imp fun {x y} hbefore => ?_
  rintro rfl
  exact lt_irrefl _ hbefore

end Listing

namespace Item

variable {root item : Item} {name : String} {x place : List String}
  {entries : List (String × Item)} {leadsToFolder : List String → Bool}

lemma lookup_of_mem (hnodup : (entries.map Prod.fst).Nodup) (h : (name, item) ∈ entries) :
    entries.lookup name = some item := by
  induction entries with
  | nil => cases h
  | cons e entries ih =>
    obtain ⟨key, old⟩ := e
    rw [map_cons, nodup_cons] at hnodup
    rw [lookup_entry]
    rcases mem_cons.mp h with h | h
    · cases h
      exact if_pos rfl
    · have hmem : name ∈ entries.map Prod.fst := mem_map_of_mem h
      have hne : name ≠ key := fun he => hnodup.1 (he ▸ hmem)
      rw [if_neg hne, ih hnodup.2 h]

lemma mem_fileNames (htidy : ∀ e ∈ entries, e.2.Tidy) :
    name ∈ fileNames leadsToFolder place entries ↔
      ∃ bytes time, (name, Item.file bytes time) ∈ entries := by
  induction entries with
  | nil => simp [fileNames]
  | cons e entries ih =>
    obtain ⟨key, old⟩ := e
    obtain ⟨hold, htidy⟩ := forall_mem_cons.mp htidy
    have ih := ih htidy
    cases hold with
    | file => simp [fileNames, ih, exists_or]
    | folder => simp [fileNames, ih]

lemma mem_folderListings {e : String × Listing} :
    e ∈ folderListings leadsToFolder place entries ↔ ∃ old ∈ entries, old.2.isFolder ∧
      e = (old.1, old.2.listing leadsToFolder (place ++ [old.1])) := by
  induction entries with
  | nil => simp [folderListings]
  | cons old entries ih =>
    obtain ⟨key, item⟩ := old
    rw [folderListings]
    by_cases hitem : item.isFolder
    · simp [hitem, ih]
    · simp [hitem, ih]

lemma fileNames_sublist :
    (fileNames leadsToFolder place entries).Sublist (entries.map Prod.fst) := by
  induction entries with
  | nil => exact .slnil
  | cons e entries ih =>
    obtain ⟨key, item⟩ := e
    rw [map_cons]
    cases item with
    | file => exact ih.cons_cons key
    | folder => exact ih.cons key
    | link =>
      rw [fileNames]
      dsimp only
      split
      · exact ih.cons_cons key
      · exact ih.cons key

lemma folderListings_sublist :
    ((folderListings leadsToFolder place entries).map Prod.fst).Sublist
      (entries.map Prod.fst) := by
  induction entries with
  | nil => exact .slnil
  | cons e entries ih =>
    obtain ⟨key, item⟩ := e
    rw [folderListings, map_cons]
    dsimp only
    split
    · exact ih.cons_cons key
    · exact ih.cons key

lemma get?_folder (hnodup : (entries.map Prod.fst).Nodup) (h : (name, item) ∈ entries)
    (x : List String) : (folder entries).get? (name :: x) = item.get? x := by
  rw [get?_cons, child?, lookup_of_mem hnodup h, Option.bind_some]

lemma Tidy.mem_paths (h : item.Tidy) : x ∈ (item.listing leadsToFolder place).paths ↔
    x ≠ [] ∧ ∃ bytes time, item.get? x = some (.file bytes time) := by
  induction h generalizing x place with
  | @file bytes time =>
    have hbelow (hx : x ≠ []) : (Item.file bytes time).get? x = none :=
      get?_below (p := []) (by simp [isFolder]) hx
    refine ⟨fun h => absurd h not_mem_nil, fun ⟨hx, bytes', time', h⟩ => ?_⟩
    rw [hbelow hx] at h
    cases h
  | @folder entries hnodup hnames htidy ih =>
    rw [listing, Listing.mem_paths]
    constructor
    · rintro (⟨name, hname, rfl⟩ | ⟨e, he, y, hy, rfl⟩)
      · obtain ⟨bytes, time, hmem⟩ := (mem_fileNames htidy).mp hname
        exact ⟨cons_ne_nil _ _, bytes, time, get?_folder hnodup hmem []⟩
      · obtain ⟨old, hold, -, rfl⟩ := mem_folderListings.mp he
        obtain ⟨-, bytes, time, hfile⟩ := (ih old hold).mp hy
        exact ⟨cons_ne_nil _ _, bytes, time, (get?_folder hnodup hold y).trans hfile⟩
    · rintro ⟨hx, bytes, time, hfile⟩
      obtain ⟨name, y, rfl⟩ := exists_cons_of_ne_nil hx
      rw [get?_cons] at hfile
      obtain ⟨item, hlookup, hfile⟩ := Option.bind_eq_some_iff.mp hfile
      have hmem := mem_of_lookup hlookup
      by_cases hy : y = []
      · subst hy
        obtain rfl : item = .file bytes time := Option.some.inj hfile
        exact .inl ⟨name, (mem_fileNames htidy).mpr ⟨bytes, time, hmem⟩, rfl⟩
      · have hfolder : item.isFolder := by
          by_contra hfolder
          rw [← nil_append y, get?_below (by simpa using hfolder) hy] at hfile
          cases hfile
        exact .inr ⟨_, mem_folderListings.mpr ⟨(name, item), hmem, hfolder, rfl⟩, y,
          (ih _ hmem).mpr ⟨hy, bytes, time, hfile⟩, rfl⟩

lemma Tidy.proper_listing (h : item.Tidy) : (item.listing leadsToFolder place).Proper := by
  induction h generalizing place with
  | file => exact .mk nodup_nil nodup_nil (forall_mem_nil _) (forall_mem_nil _)
  | @folder entries hnodup hnames htidy ih =>
    rw [listing]
    refine .mk (hnodup.sublist fileNames_sublist) (hnodup.sublist folderListings_sublist) ?_ ?_
    · have hproper : ∀ name ∈ entries.map Prod.fst, isProper name := forall_mem_map.mpr hnames
      exact forall_mem_append.mpr ⟨fun name h => hproper name (fileNames_sublist.subset h),
        fun name h => hproper name (folderListings_sublist.subset h)⟩
    · intro e he
      obtain ⟨old, hold, -, rfl⟩ := mem_folderListings.mp he
      exact ih old hold

end Item

namespace Disk

variable {d : Disk} {folder : String} {place x : List String} {entries : List (String × Item)}

lemma exists_listing (htidy : d.root.Tidy)
    (h : d.locate folder = .ok (.found place (.folder entries))) :
    d.root.get? place = some (.folder entries) ∧ (Item.folder entries).Tidy ∧
      ∃ leadsToFolder, d.listing folder = (Item.folder entries).listing leadsToFolder place := by
  have hfound := (locate_eq_ok.mp h).2.get?_found
  unfold listing
  rw [h]
  exact ⟨hfound, (htidy.get? hfound).1, _, rfl⟩

lemma proper_listing (htidy : d.root.Tidy)
    (h : d.locate folder = .ok (.found place (.folder entries))) : (d.listing folder).Proper := by
  obtain ⟨-, hitem, leadsToFolder, hlisting⟩ := exists_listing htidy h
  rw [hlisting]
  exact hitem.proper_listing

lemma mem_listing (htidy : d.root.Tidy)
    (h : d.locate folder = .ok (.found place (.folder entries))) : x ∈ (d.listing folder).paths ↔
      x ≠ [] ∧ ∃ bytes time, d.root.get? (place ++ x) = some (.file bytes time) := by
  obtain ⟨hfound, hitem, leadsToFolder, hlisting⟩ := exists_listing htidy h
  rw [hlisting, hitem.mem_paths, Item.get?_append, hfound, Option.bind_some]

end Disk

end UiScript
