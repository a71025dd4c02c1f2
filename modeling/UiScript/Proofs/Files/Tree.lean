import Mathlib.Data.List.Basic
import Mathlib.Tactic.Common
import UiScript.Files.Disk
import UiScript.Value.Dict

/-!
# Trees of files

A tree is seen through what stands at each place, where a folder counts without its entries. Setting
and erasing change this view at one place only. `Item.Edits` says once what happens to a tree:
folders are added, files are written and erased. From this it follows what stays as it was.
-/

namespace UiScript.Item

open List

variable {root root' root'' item new : Item} {p q place : List String} {name : String}
  {entries : List (String × Item)}

/-! ### Items at places -/

@[simp] lemma get?_nil (item : Item) : item.get? [] = some item := rfl

lemma get?_cons (item : Item) (name : String) (p : List String) :
    item.get? (name :: p) = (item.child? name).bind (·.get? p) := by
  rw [get?]
  cases item.child? name <;> rfl

lemma get?_append (item : Item) (p q : List String) :
    item.get? (p ++ q) = (item.get? p).bind (·.get? q) := by
  induction p generalizing item with
  | nil => rfl
  | cons name p ih =>
    rw [cons_append, get?_cons, get?_cons]
    cases item.child? name with
    | none => rfl
    | some next => exact ih next

lemma child?_eq_none (h : item.isFolder = false) (name : String) : item.child? name = none := by
  cases item with
  | folder => cases h
  | _ => rfl

/-- Nothing stands below what is no folder. -/
lemma get?_below (h : ∀ x ∈ root.get? p, x.isFolder = false) (hq : q ≠ []) :
    root.get? (p ++ q) = none := by
  rw [get?_append]
  cases hx : root.get? p with
  | none => rfl
  | some x =>
    obtain ⟨name, q, rfl⟩ := exists_cons_of_ne_nil hq
    rw [Option.bind_some, get?_cons, child?_eq_none (h x hx)]
    rfl

def shape : Item → Item
  | .folder _ => .folder []
  | item => item

/-- What stands at a place, without its entries. -/
def view (root : Item) (place : List String) : Option Item := (root.get? place).map shape

lemma shape_eq_folder : item.shape = .folder [] ↔ ∃ entries, item = .folder entries := by
  cases item <;> simp [shape]

lemma shape_eq_link {target : String} : item.shape = .link target ↔ item = .link target := by
  cases item <;> simp [shape]

lemma shape_eq_file {bytes : List UInt8} {time : Int} :
    item.shape = .file bytes time ↔ item = .file bytes time := by
  cases item <;> simp [shape]

lemma view_eq_none : root.view p = none ↔ root.get? p = none := Option.map_eq_none_iff

lemma view_eq_folder :
    root.view p = some (.folder []) ↔ ∃ entries, root.get? p = some (.folder entries) := by
  simp only [view, Option.map_eq_some_iff, shape_eq_folder]
  grind

lemma view_eq_link {target : String} :
    root.view p = some (.link target) ↔ root.get? p = some (.link target) := by
  simp only [view, Option.map_eq_some_iff, shape_eq_link, exists_eq_right]

lemma view_eq_file {bytes : List UInt8} {time : Int} :
    root.view p = some (.file bytes time) ↔ root.get? p = some (.file bytes time) := by
  simp only [view, Option.map_eq_some_iff, shape_eq_file, exists_eq_right]

/-- Nothing is seen below what is no folder. -/
lemma view_below (h : root.view p ≠ some (.folder [])) (hq : q ≠ []) :
    root.view (p ++ q) = none := by
  refine view_eq_none.mpr (get?_below (fun x hx => ?_) hq)
  cases hfolder : x.isFolder with
  | false => rfl
  | true =>
    cases x with
    | folder entries => exact absurd (view_eq_folder.mpr ⟨entries, hx⟩) h
    | _ => cases hfolder

lemma view_folder_of_append (h : root.view (p ++ q) ≠ none) (hq : q ≠ []) :
    root.view p = some (.folder []) := by
  by_contra hp
  exact h (view_below hp hq)

lemma lookup_eq_get? (h : root.get? p = some (.folder entries)) (name : String) :
    entries.lookup name = root.get? (p ++ [name]) := by
  rw [get?_append, h, Option.bind_some, get?_cons]
  change _ = (entries.lookup name).bind _
  cases entries.lookup name <;> rfl

/-! ### Setting and erasing -/

lemma lookup_entry (name key : String) (item : Item) (entries : List (String × Item)) :
    ((name, item) :: entries).lookup key =
      if key = name then some item else entries.lookup key :=
  Dict.get?_cons key (name, item) entries

lemma lookup_setEntry (name key : String) (item : Item) (entries : List (String × Item)) :
    (setEntry name item entries).lookup key =
      if key = name then some item else entries.lookup key := by
  induction entries with
  | nil => exact lookup_entry name key item []
  | cons e entries ih =>
    obtain ⟨old, x⟩ := e
    rw [setEntry]
    by_cases hold : old = name
    · rw [if_pos (beq_iff_eq.mpr hold), lookup_entry, lookup_entry, hold]
      by_cases h : key = name <;> simp only [h, if_true, if_false]
    · rw [if_neg (by simpa using hold), lookup_entry, lookup_entry, ih]
      by_cases h : key = old
      · subst h
        simp only [hold, if_true, if_false]
      · simp only [h, if_false]

lemma view_folder (entries : List (String × Item)) (key : String) (q : List String) :
    (folder entries).view (key :: q) = (entries.lookup key).bind (·.view q) := by
  rw [view, get?_cons]
  change Option.map shape ((entries.lookup key).bind _) = _
  cases entries.lookup key <;> rfl

/-- A folder seen after one of its entries has been replaced. -/
lemma view_folder_setEntry (entries : List (String × Item)) (name key : String) (item : Item)
    (q : List String) :
    (folder (setEntry name item entries)).view (key :: q) =
      if key = name then item.view q else (folder entries).view (key :: q) := by
  rw [view_folder, view_folder, lookup_setEntry]
  split <;> rfl

lemma lookup_filter_ne (name key : String) (entries : List (String × Item)) :
    (entries.filter (·.1 != name)).lookup key =
      if key = name then none else entries.lookup key := by
  induction entries with
  | nil => simp
  | cons e entries ih =>
    obtain ⟨old, x⟩ := e
    by_cases hold : old = name
    · rw [filter_cons_of_neg (by simpa using hold), ih, lookup_entry, hold]
      by_cases h : key = name <;> simp only [h, if_true, if_false]
    · rw [filter_cons_of_pos (by simpa using hold), lookup_entry, ih, lookup_entry]
      by_cases h : key = old
      · subst h
        simp only [hold, if_true, if_false]
      · simp only [h, if_false]

/-- Nothing stands in what has no entries. -/
lemma view_of_shape (h : item.shape = item) (hq : q ≠ []) : item.view q = none := by
  cases item with
  | folder entries =>
    obtain ⟨name, q, rfl⟩ := exists_cons_of_ne_nil hq
    obtain rfl : [] = entries := Item.folder.inj h
    rfl
  | file | link => exact view_below (p := []) (by simp [view, shape]) hq

/-- Setting something without entries in a folder, where no folder stands, changes what is seen at
this place only. -/
lemma view_set (hnew : new.shape = new) (hparent : root.view p = some (.folder []))
    (hplace : root.view (p ++ [name]) ≠ some (.folder []))
    (q : List String) :
    (root.set new (p ++ [name])).view q = if q = p ++ [name] then some new else root.view q := by
  induction p generalizing root q with
  | nil =>
    obtain ⟨entries, hroot⟩ := view_eq_folder.mp hparent
    obtain rfl : root = .folder entries := Option.some.inj hroot
    have hset : (folder entries).set new ([] ++ [name]) = folder (setEntry name new entries) := by
      rw [nil_append, set]
      cases entries.lookup name with
      | none => rfl
      | some old => cases old <;> rfl
    rw [hset]
    cases q with
    | nil => rfl
    | cons key q =>
      rw [view_folder_setEntry]
      by_cases hkey : key = name
      · subst hkey
        rw [if_pos rfl]
        by_cases hq : q = []
        · subst hq
          rw [nil_append, if_pos rfl, view, get?_nil, Option.map_some, hnew]
        · rw [view_of_shape hnew hq, if_neg (by simpa using hq)]
          exact (view_below hplace hq).symm
      · rw [if_neg hkey, if_neg (by simp [hkey])]
  | cons first p ih =>
    have hroot : root.view [] = some (.folder []) :=
      view_folder_of_append (p := []) (q := first :: p) (by rw [nil_append, hparent]; simp)
        (cons_ne_nil _ _)
    obtain ⟨entries, hroot⟩ := view_eq_folder.mp hroot
    obtain rfl : root = .folder entries := Option.some.inj hroot
    have hbelow (r : List String) := view_folder entries first r
    cases hold : entries.lookup first with
    | none =>
      rw [hbelow, hold] at hparent
      cases hparent
    | some old =>
      simp only [hold, Option.bind_some] at hbelow
      have hset : (folder entries).set new (first :: (p ++ [name])) =
          folder (setEntry first (old.set new (p ++ [name])) entries) := by
        rw [set, hold]
      rw [cons_append, hset]
      cases q with
      | nil => rfl
      | cons key q =>
        rw [view_folder_setEntry]
        by_cases hkey : key = first
        · subst hkey
          rw [hbelow] at hparent
          rw [cons_append, hbelow] at hplace
          rw [if_pos rfl, ih hparent hplace q, hbelow]
          simp
        · rw [if_neg hkey, if_neg (by simp [hkey])]

lemma view_erase (hplace : root.view place ≠ some (.folder [])) (hne : place ≠ [])
    (q : List String) : (root.erase place).view q = if q = place then none else root.view q := by
  induction place generalizing root q with
  | nil => exact absurd rfl hne
  | cons first more ih =>
    by_cases hroot : root.isFolder
    · cases root with
      | file | link => cases hroot
      | folder entries =>
        have hbelow (r : List String) := view_folder entries first r
        cases more with
        | nil =>
          change (folder (entries.filter (·.1 != first))).view q = _
          cases q with
          | nil => rfl
          | cons key q =>
            rw [view_folder, lookup_filter_ne]
            by_cases hkey : key = first
            · subst hkey
              rw [if_pos rfl]
              by_cases hq : q = []
              · rw [hq, if_pos rfl]
                rfl
              · rw [if_neg (by simpa using hq)]
                exact (view_below hplace hq).symm
            · rw [if_neg hkey, if_neg (by simp [hkey]), view_folder]
        | cons second more =>
          cases hold : entries.lookup first with
          | none =>
            have herase : (folder entries).erase (first :: second :: more) = folder entries := by
              simp only [erase, hold]
            rw [herase]
            by_cases hq : q = first :: second :: more
            · rw [if_pos hq, hq, hbelow, hold]
              rfl
            · rw [if_neg hq]
          | some old =>
            have herase : (folder entries).erase (first :: second :: more) =
                folder (setEntry first (old.erase (second :: more)) entries) := by
              simp only [erase, hold]
            simp only [hold, Option.bind_some] at hbelow
            rw [hbelow] at hplace
            rw [herase]
            cases q with
            | nil => rfl
            | cons key q =>
              rw [view_folder_setEntry]
              by_cases hkey : key = first
              · subst hkey
                rw [if_pos rfl, ih hplace (cons_ne_nil _ _) q, hbelow]
                simp
              · rw [if_neg hkey, if_neg (by simp [hkey])]
    · have herase : root.erase (first :: more) = root := by
        cases root with
        | folder => exact absurd rfl hroot
        | file | link => cases more <;> rfl
      have hnone : root.view ([] ++ first :: more) = none :=
        view_below (fun h => hroot (by
          obtain ⟨entries, h⟩ := view_eq_folder.mp h
          rw [Option.some.inj h]
          rfl)) (cons_ne_nil _ _)
      rw [herase]
      by_cases hq : q = first :: more
      · rw [if_pos hq, hq]
        exact hnone
      · rw [if_neg hq]

/-! ### Names -/

def isName (part : String) : Bool := !(part.isEmpty || part == "." || part == "..")

def isProper (name : String) : Bool := isName name && !name.toList.contains '/'

/-- A tree without links, where the entries of each folder have different proper names. -/
inductive Tidy : Item → Prop
  | file {bytes : List UInt8} {time : Int} : Tidy (.file bytes time)
  | folder {entries : List (String × Item)} (hnodup : (entries.map Prod.fst).Nodup)
      (hnames : ∀ e ∈ entries, isProper e.1) (h : ∀ e ∈ entries, Tidy e.2) : Tidy (.folder entries)

lemma mem_of_lookup (h : entries.lookup name = some item) : (name, item) ∈ entries := by
  induction entries with
  | nil => cases h
  | cons e entries ih =>
    rw [lookup_entry] at h
    split at h
    · cases h
      simp [*]
    · exact mem_cons_of_mem _ (ih h)

lemma mem_setEntry {e : String × Item} (h : e ∈ setEntry name item entries) :
    e = (name, item) ∨ e ∈ entries := by
  induction entries with
  | nil => exact .inl (mem_singleton.mp h)
  | cons =>
    rw [setEntry] at h
    split at h <;> grind

lemma nodup_setEntry (h : (entries.map Prod.fst).Nodup) :
    ((setEntry name item entries).map Prod.fst).Nodup := by
  induction entries with
  | nil => simp [setEntry]
  | cons old entries ih =>
    rw [map_cons, nodup_cons] at h
    rw [setEntry]
    split
    · simp_all
    · rw [map_cons, nodup_cons]
      refine ⟨fun hkey => ?_, ih h.2⟩
      obtain ⟨e, he, hekey⟩ := mem_map.mp hkey
      rcases mem_setEntry he with rfl | he
      · simp_all
      · exact h.1 (mem_map.mpr ⟨e, he, hekey⟩)

namespace Tidy

lemma setEntry (h : Tidy (.folder entries)) (hname : isProper name)
    (hitem : item.Tidy) : Tidy (.folder (setEntry name item entries)) := by
  cases h with
  | folder hnodup hnames h =>
    refine .folder (nodup_setEntry hnodup) (fun e he => ?_) fun e he => ?_
    · rcases mem_setEntry he with rfl | he
      · exact hname
      · exact hnames e he
    · rcases mem_setEntry he with rfl | he
      · exact hitem
      · exact h e he

lemma child (h : Tidy (.folder entries))
    (hitem : entries.lookup name = some item) : isProper name ∧ item.Tidy := by
  cases h with
  | folder _ hnames h => exact ⟨hnames _ (mem_of_lookup hitem), h _ (mem_of_lookup hitem)⟩

/-- All that stands in a tidy tree is tidy, and the names on the way are proper. -/
lemma get? (h : root.Tidy) (hitem : root.get? p = some item) :
    item.Tidy ∧ ∀ name ∈ p, isProper name := by
  induction p generalizing root with
  | nil =>
    obtain rfl := Option.some.inj hitem
    exact ⟨h, forall_mem_nil _⟩
  | cons name p ih =>
    rw [get?_cons] at hitem
    obtain ⟨next, hnext, hbelow⟩ := Option.bind_eq_some_iff.mp hitem
    cases root with
    | file | link => cases hnext
    | folder =>
      obtain ⟨hname, hnext⟩ := h.child hnext
      obtain ⟨hitem, hp⟩ := ih hnext hbelow
      exact ⟨hitem, forall_mem_cons.mpr ⟨hname, hp⟩⟩

lemma names (h : root.Tidy) (hp : root.view p ≠ none) : ∀ name ∈ p, isProper name := by
  obtain ⟨item, hitem⟩ := Option.ne_none_iff_exists'.mp (mt view_eq_none.mpr hp)
  exact (h.get? hitem).2

lemma no_link (h : root.Tidy) (p : List String) (target : String) :
    root.view p ≠ some (.link target) := by
  intro hlink
  cases (h.get? (view_eq_link.mp hlink)).1

lemma set (h : root.Tidy) (hnew : new.Tidy) (hp : ∀ name ∈ p, isProper name) :
    (root.set new p).Tidy := by
  induction p generalizing root with
  | nil =>
    exact hnew
  | cons name p ih =>
    obtain ⟨hname, hp⟩ := forall_mem_cons.mp hp
    cases root with
    | link => cases h
    | file =>
      simpa only [Item.set] using h
    | folder entries =>
      rw [Item.set]
      cases hold : entries.lookup name with
      | none =>
        dsimp only
        split
        · exact h.setEntry hname hnew
        · exact h
      | some => exact h.setEntry hname (ih (h.child hold).2 hp)

lemma erase (h : root.Tidy) (p : List String) : (root.erase p).Tidy := by
  induction p generalizing root with
  | nil => exact h
  | cons name p ih =>
    cases root with
    | file | link =>
      cases p <;> exact h
    | folder entries =>
      cases p with
      | nil =>
        cases h with
        | folder hnodup hnames h =>
          refine .folder ((filter_sublist.map _).nodup hnodup) ?_ ?_
          · exact fun e he => hnames e (mem_of_mem_filter he)
          · exact fun e he => h e (mem_of_mem_filter he)
      | cons =>
        cases hold : entries.lookup name with
        | none => simpa only [Item.erase, hold] using h
        | some =>
          obtain ⟨hname, hold'⟩ := h.child hold
          simpa only [Item.erase, hold] using h.setEntry hname (ih hold')

end Tidy

/-! ### Edits -/

/-- The second tree comes from the first one by edits: folders are made where nothing was, and files
are written and erased at certain places. -/
inductive Edits (written : List String → Prop) (root : Item) : Item → Prop
  | refl : Edits written root root
  | makeFolder {root' : Item} {p : List String} {name : String} (h : Edits written root root')
      (hparent : root'.view p = some (.folder [])) (hname : isProper name)
      (hfree : root'.view (p ++ [name]) = none) :
      Edits written root (root'.set (.folder []) (p ++ [name]))
  | write {root' : Item} {p : List String} {name : String} {bytes : List UInt8} {time : Int}
      (h : Edits written root root') (hparent : root'.view p = some (.folder []))
      (hname : root'.view (p ++ [name]) = none → isProper name)
      (hfolder : root'.view (p ++ [name]) ≠ some (.folder []))
      (hlink : ∀ target, root'.view (p ++ [name]) ≠ some (.link target))
      (hwritten : written (p ++ [name])) :
      Edits written root (root'.set (.file bytes time) (p ++ [name]))
  | erase {root' : Item} {place : List String} (h : Edits written root root') (hne : place ≠ [])
      (hfolder : root'.view place ≠ some (.folder []))
      (hlink : ∀ target, root'.view place ≠ some (.link target)) (hwritten : written place) :
      Edits written root (root'.erase place)

namespace Edits

variable {written written' : List String → Prop}

section

variable (h : Edits written root root')
include h

lemma trans (h' : Edits written root' root'') : Edits written root root'' := by
  induction h' with
  | refl => exact h
  | makeFolder _ hparent hname hfree ih => exact ih.makeFolder hparent hname hfree
  | write _ hparent hname hfolder hlink hwritten ih =>
    exact ih.write hparent hname hfolder hlink hwritten
  | erase _ hne hfolder hlink hwritten ih => exact ih.erase hne hfolder hlink hwritten

lemma mono (hle : ∀ p, written p → written' p) : Edits written' root root' := by
  induction h with
  | refl => exact .refl
  | makeFolder _ hparent hname hfree ih => exact ih.makeFolder hparent hname hfree
  | write _ hparent hname hfolder hlink hwritten ih =>
    exact ih.write hparent hname hfolder hlink (hle _ hwritten)
  | erase _ hne hfolder hlink hwritten ih => exact ih.erase hne hfolder hlink (hle _ hwritten)

/-- Links stay, and there are no new ones. -/
lemma link (p : List String) (target : String) :
    root'.view p = some (.link target) ↔ root.view p = some (.link target) := by
  induction h with
  | refl => rfl
  | makeFolder _ hparent _ hfree ih =>
    rw [view_set rfl hparent (by simp [hfree]), ← ih]
    grind
  | write _ hparent _ hfolder hlink _ ih =>
    rw [view_set rfl hparent hfolder, ← ih]
    grind
  | erase _ hne hfolder hlink _ ih =>
    rw [view_erase hfolder hne, ← ih]
    grind

lemma folder (hp : root.view p = some (.folder [])) : root'.view p = some (.folder []) := by
  induction h with
  | refl => exact hp
  | makeFolder _ hparent _ hfree =>
    rw [view_set rfl hparent (by simp [hfree])]
    grind
  | write _ hparent _ hfolder =>
    rw [view_set rfl hparent hfolder]
    grind
  | erase _ hne hfolder =>
    rw [view_erase hfolder hne]
    grind

/-- Other files than the written ones stay as they are, and there are no new ones. -/
lemma file (hp : ¬ written p) (bytes : List UInt8) (time : Int) :
    root'.view p = some (.file bytes time) ↔ root.view p = some (.file bytes time) := by
  induction h with
  | refl => rfl
  | makeFolder _ hparent _ hfree ih =>
    rw [view_set rfl hparent (by simp [hfree]), ← ih]
    grind
  | @write _ q name _ _ _ hparent _ hfolder _ hwritten ih =>
    have hne : p ≠ q ++ [name] := fun he => hp (he ▸ hwritten)
    rw [view_set rfl hparent hfolder, if_neg hne, ih]
  | @erase _ q _ hq hfolder _ hwritten ih =>
    have hne : p ≠ q := fun he => hp (he ▸ hwritten)
    rw [view_erase hfolder hq, if_neg hne, ih]

lemma tidy (hroot : root.Tidy) : root'.Tidy := by
  induction h with
  | refl => exact hroot
  | @makeFolder root' p name _ hparent hname _ ih =>
    refine ih.set (.folder nodup_nil (forall_mem_nil _) (forall_mem_nil _)) ?_
    exact forall_mem_append.mpr
      ⟨ih.names (by simp [hparent]), forall_mem_singleton.mpr hname⟩
  | @write root' p name _ _ _ hparent hname _ _ _ ih =>
    refine ih.set .file (forall_mem_append.mpr
      ⟨ih.names (by simp [hparent]), forall_mem_singleton.mpr ?_⟩)
    by_cases hview : root'.view (p ++ [name]) = none
    · exact hname hview
    · exact ih.names hview name (by simp)
  | erase _ _ _ _ _ ih => exact ih.erase _

end

end Edits

end UiScript.Item
