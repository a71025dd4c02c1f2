import UiScript.Proofs.Site.Places

/-!
# Changes of sources

During a wait sources are written and removed, and the folders above them are made. Such a change is
an edit of the disk at places of sources. A file that stands there afterwards stood there before, or
it was written now.
-/

namespace UiScript

open List

namespace Item

variable {root new item : Item} {p names : List String} {name : String}
  {entries : List (String × Item)}

def time? : Item → Option Int
  | .file _ time => some time
  | _ => none

lemma setEntry_self (h : entries.lookup name = some item) :
    setEntry name item entries = entries := by
  induction entries with
  | nil => cases h
  | cons e entries ih =>
    obtain ⟨key, old⟩ := e
    rw [lookup_entry] at h
    rw [setEntry]
    by_cases hkey : key = name
    · rw [if_pos hkey.symm] at h
      rw [if_pos (beq_iff_eq.mpr hkey), hkey, Option.some.inj h]
    · rw [if_neg (Ne.symm hkey)] at h
      rw [if_neg (mt beq_iff_eq.mp hkey), ih h]

lemma set_of_not_folder (h : root.view p ≠ some (.folder [])) (new : Item) (name : String) :
    root.set new (p ++ [name]) = root := by
  induction p generalizing root with
  | nil =>
    cases root with
    | folder => exact absurd rfl h
    | file | link => rfl
  | cons first p ih =>
    rw [cons_append]
    cases root with
    | file | link => rfl
    | folder entries =>
      rw [view_folder] at h
      rw [set]
      cases hold : entries.lookup first with
      | none => exact if_neg (by simp)
      | some =>
        rw [hold, Option.bind_some] at h
        dsimp only
        rw [ih h, setEntry_self hold]

/-- A folder is made in a tree unless something stands there or is in the way. -/
def ensure (root : Item) (place : List String) : Item :=
  if (root.get? place).isSome then root else root.set (.folder []) place

lemma ensure_edits (root : Item) (hname : isProper name) :
    Edits (fun _ => False) root (root.ensure (p ++ [name])) := by
  unfold ensure
  split
  · exact .refl
  · rename_i hnone
    by_cases hparent : root.view p = some (.folder [])
    · exact .makeFolder .refl hparent hname (view_eq_none.mpr (by simpa using hnone))
    · rw [set_of_not_folder hparent]
      exact .refl

lemma view_ensure (root : Item) {q : List String} (hq : q ≠ p ++ [name]) :
    (root.ensure (p ++ [name])).view q = root.view q := by
  unfold ensure
  split
  · rfl
  · rename_i hnone
    have hfree := view_eq_none.mpr (by simpa using hnone)
    by_cases hparent : root.view p = some (.folder [])
    · rw [view_set rfl hparent (by simp [hfree]), if_neg hq]
    · rw [set_of_not_folder hparent]

/-- The folders above a place are made. -/
lemma above_edits (hnames : ∀ name ∈ names, isProper name) (root : Item) {n : Nat}
    (hn : n ≤ names.length) :
    let above := (List.range n).foldl (fun root n => root.ensure (names.take n)) root
    Edits (fun _ => False) root above ∧ above.view names = root.view names := by
  induction n with
  | zero => exact ⟨.refl, rfl⟩
  | succ n ih =>
    obtain ⟨hedits, hview⟩ := ih (Nat.le_of_succ_le hn)
    rw [range_succ, foldl_append, foldl_cons, foldl_nil]
    generalize (List.range n).foldl _ root = above at hedits hview ⊢
    cases n with
    | zero => exact ⟨hedits, hview⟩
    | succ n =>
      have hlt : n < names.length := Nat.lt_of_succ_lt (Nat.lt_of_succ_le hn)
      have htake := take_append_getElem hlt
      have hne : names ≠ names.take n ++ [names[n]] := by
        rw [htake]
        intro h
        have hlength := congrArg List.length h
        rw [length_take] at hlength
        omega
      rw [← htake]
      refine ⟨hedits.trans (ensure_edits above (hnames _ (getElem_mem hlt))), ?_⟩
      rw [view_ensure above hne, hview]

end Item

namespace Disk

open Item (isProper)

variable {d : Disk} {path : String} {bytes : List UInt8} {time : Int} {p : List String}

/-- The place at which a change puts what it writes at a path. -/
def spot (d : Disk) (path : String) : List String :=
  (Path.segments (Path.join d.workingDir path)).filter (!·.isEmpty)

structure IsSourceSpot (d : Disk) (path : String) : Prop where
  names : ∀ name ∈ d.spot path, isProper name
  ending : Site.endsAsSource (d.spot path)
  clear : d.root.view (d.spot path) ≠ some (.folder [])

lemma isSourceSpot_iff : d.IsSourceSpot path ↔ (∀ name ∈ d.spot path, isProper name) ∧
    Site.endsAsSource (d.spot path) ∧ (d.root.view (d.spot path)).any Item.isFolder = false := by
  have hclear : d.root.view (d.spot path) ≠ some (.folder []) ↔
      (d.root.view (d.spot path)).any Item.isFolder = false := by
    rw [Item.view]
    rcases d.root.get? (d.spot path) with _ | (_ | _ | _) <;> simp [Item.shape, Item.isFolder]
  rw [← hclear]
  exact ⟨fun h => ⟨h.names, h.ending, h.clear⟩, fun h => ⟨h.1, h.2.1, h.2.2⟩⟩

instance : Decidable (d.IsSourceSpot path) := decidable_of_iff' _ isSourceSpot_iff

lemma IsSourceSpot.ne_nil (h : d.IsSourceSpot path) : d.spot path ≠ [] := by
  intro hnil
  have hending := h.ending
  rw [hnil, Site.endsAsSource, String.endsWith_eq_endsWith_toSlice,
    String.Slice.endsWith_string_iff] at hending
  exact absurd hending (by decide)

/-- The disk with the folders above a place. -/
def above (d : Disk) (path : String) : Disk :=
  { d with
    root := (List.range (d.spot path).length).foldl
      (fun root n => root.ensure ((d.spot path).take n)) d.root }

lemma place_eq (d : Disk) (path : String) (item : Item) :
    d.place path item =
      { d.above path with root := (d.above path).root.set item (d.spot path) } := by
  dsimp only [place, above, spot]
  rfl

lemma above_edited (h : d.IsSourceSpot path) : Edited (fun _ => False) d (d.above path) := by
  have hedits := (Item.above_edits h.names d.root (Nat.le_refl _)).1
  exact ⟨hedits, by dsimp only [above], by dsimp only [above]⟩

lemma view_above (h : d.IsSourceSpot path) :
    (d.above path).root.view (d.spot path) = d.root.view (d.spot path) := by
  have hview := (Item.above_edits h.names d.root (Nat.le_refl _)).2
  exact hview

/-- A file is put at its place, or something is in the way. -/
lemma place_cases (htidy : d.root.Tidy) (h : d.IsSourceSpot path) (bytes : List UInt8)
    (time : Int) : d.place path (.file bytes time) = d.above path ∨
      Edited (· = d.spot path) (d.above path) (d.place path (.file bytes time)) ∧
        (d.place path (.file bytes time)).root.view (d.spot path) =
          some (.file bytes time) := by
  have hplain := ((above_edited h).root.tidy htidy).no_link
  have hclear : (d.above path).root.view (d.spot path) ≠ some (.folder []) := by
    rw [view_above h]
    exact h.clear
  have hnames := h.names
  rw [place_eq]
  generalize d.above path = above at hplain hclear ⊢
  obtain hnil | ⟨parent, name, hspot⟩ := eq_nil_or_concat (d.spot path)
  · exact absurd hnil h.ne_nil
  · rw [concat_eq_append] at hspot
    rw [hspot] at hclear hnames ⊢
    by_cases hparent : above.root.view parent = some (.folder [])
    · refine .inr ⟨⟨.write .refl hparent (fun _ => hnames name (by simp)) hclear (hplain _) rfl,
        rfl, rfl⟩, ?_⟩
      rw [Item.view_set rfl hparent hclear, if_pos rfl]
    · rw [Item.set_of_not_folder hparent]
      exact .inl rfl

lemma place_edited (htidy : d.root.Tidy) (h : d.IsSourceSpot path) (bytes : List UInt8)
    (time : Int) : Edited (· = d.spot path) d (d.place path (.file bytes time)) := by
  have habove : Edited (· = d.spot path) d (d.above path) :=
    (above_edited h).mono fun _ => False.elim
  obtain hplace | ⟨hedited, -⟩ := place_cases htidy h bytes time
  · rw [hplace]
    exact habove
  · exact habove.trans hedited

/-- A file that stands somewhere after another one was put stood there before. -/
lemma view_place (htidy : d.root.Tidy) (h : d.IsSourceSpot path) {bytes' : List UInt8} {time' : Int}
    (hp : (d.place path (.file bytes time)).root.view p = some (.file bytes' time')) :
    d.root.view p = some (.file bytes' time') ∨ d.spot path = p ∧ time' = time := by
  have habove := (above_edited h).root.file (p := p) not_false bytes' time'
  obtain hplace | ⟨hedited, hview⟩ := place_cases htidy h bytes time
  · rw [hplace] at hp
    exact .inl (habove.mp hp)
  · by_cases hpath : d.spot path = p
    · rw [← hpath, hview] at hp
      cases hp
      exact .inr ⟨hpath, rfl⟩
    · exact .inl (habove.mp ((hedited.root.file (Ne.symm hpath) bytes' time').mp hp))

lemma spot_place (d : Disk) (path path' : String) (item : Item) :
    (d.place path item).spot path' = d.spot path' := by
  dsimp only [spot, place]

lemma remove_eq (d : Disk) (path : String) :
    d.remove path = { d with root := d.root.erase (d.spot path) } := rfl

lemma remove_edited (htidy : d.root.Tidy) (h : d.IsSourceSpot path) :
    Edited (· = d.spot path) d (d.remove path) := by
  rw [remove_eq]
  exact ⟨.erase .refl h.ne_nil h.clear (htidy.no_link _) rfl, by dsimp only, by dsimp only⟩

lemma view_remove (h : d.IsSourceSpot path) {item : Item}
    (hp : (d.remove path).root.view p = some item) : d.root.view p = some item := by
  rw [remove_eq, Item.view_erase h.clear h.ne_nil p] at hp
  split at hp
  · cases hp
  · exact hp

end Disk

namespace Memory

variable {d : Disk} {times : String → Int} {p : List String} {writes : List (String × Item)}
  {removals : List String} {c : Change}

def CanWrite (times : String → Int) : Disk → List (String × Item) → Prop
  | _, [] => True
  | d, (path, item) :: more => d.IsSourceSpot path ∧ (∃ bytes time, item = .file bytes time) ∧
    CanWrite times (d.place path (stamped (times path) item)) more

def CanRemove : Disk → List String → Prop
  | _, [] => True
  | d, path :: more => d.IsSourceSpot path ∧ CanRemove (d.remove path) more

/-- The disk after files were written. -/
def writeAll (times : String → Int) (d : Disk) (writes : List (String × Item)) : Disk :=
  apply times d { writes }

def IsSourceChange (times : String → Int) (d : Disk) (c : Change) : Prop :=
  CanWrite times d c.writes ∧ CanRemove (writeAll times d c.writes) c.removals

lemma writeAll_cons (path : String) (bytes : List UInt8) (time : Int) :
    writeAll times d ((path, .file bytes time) :: writes) =
      writeAll times (d.place path (.file bytes (times path))) writes := rfl

lemma writeAll_edited (htidy : d.root.Tidy) (h : CanWrite times d writes) :
    Disk.Edited (Site.endsAsSource ·) d (writeAll times d writes) := by
  induction writes generalizing d with
  | nil => exact .refl _ d
  | cons e writes ih =>
    obtain ⟨path, item⟩ := e
    obtain ⟨hspot, ⟨bytes, time, rfl⟩, hmore⟩ := h
    have hfirst := Disk.place_edited htidy hspot bytes (times path)
    rw [writeAll_cons]
    refine (hfirst.mono fun p hp => ?_).trans (ih (hfirst.root.tidy htidy) hmore)
    exact hp ▸ hspot.ending

/-- A file that stands somewhere after others were written stood there before, or it is one of
them. -/
lemma view_writeAll (htidy : d.root.Tidy) (h : CanWrite times d writes) {bytes : List UInt8}
    {time : Int} (hp : (writeAll times d writes).root.view p = some (.file bytes time)) :
    d.root.view p = some (.file bytes time) ∨
      ∃ e ∈ writes, d.spot e.1 = p ∧ time = times e.1 := by
  induction writes generalizing d with
  | nil => exact .inl hp
  | cons e writes ih =>
    obtain ⟨path, item⟩ := e
    obtain ⟨hspot, ⟨bytes', time', rfl⟩, hmore⟩ := h
    have hfirst := Disk.place_edited htidy hspot bytes' (times path)
    rw [writeAll_cons] at hp
    rcases ih (hfirst.root.tidy htidy) hmore hp with hp | ⟨e, he, hp, htime⟩
    · rcases Disk.view_place htidy hspot hp with hp | ⟨hp, htime⟩
      · exact .inl hp
      · exact .inr ⟨_, mem_cons_self, hp, htime⟩
    · rw [Disk.spot_place] at hp
      exact .inr ⟨e, mem_cons_of_mem _ he, hp, htime⟩

lemma removeAll_edited (htidy : d.root.Tidy) (h : CanRemove d removals) :
    Disk.Edited (Site.endsAsSource ·) d (removals.foldl Disk.remove d) := by
  induction removals generalizing d with
  | nil => exact .refl _ d
  | cons path removals ih =>
    obtain ⟨hspot, hmore⟩ := h
    have hfirst := Disk.remove_edited htidy hspot
    rw [foldl_cons]
    refine (hfirst.mono fun p hp => ?_).trans (ih (hfirst.root.tidy htidy) hmore)
    exact hp ▸ hspot.ending

lemma view_removeAll (h : CanRemove d removals) {item : Item}
    (hp : (removals.foldl Disk.remove d).root.view p = some item) : d.root.view p = some item := by
  induction removals generalizing d with
  | nil => exact hp
  | cons path removals ih =>
    rw [foldl_cons] at hp
    exact Disk.view_remove h.1 (ih h.2 hp)

lemma apply_edited (htidy : d.root.Tidy) (h : IsSourceChange times d c) :
    Disk.Edited (Site.endsAsSource ·) d (apply times d c) := by
  have hwrites := writeAll_edited htidy h.1
  exact hwrites.trans (removeAll_edited (hwrites.root.tidy htidy) h.2)

/-- A file that stands somewhere after a change stood there before, or it was written now. -/
lemma view_apply (htidy : d.root.Tidy) (h : IsSourceChange times d c) {bytes : List UInt8}
    {time : Int} (hp : (apply times d c).root.view p = some (.file bytes time)) :
    d.root.view p = some (.file bytes time) ∨
      ∃ e ∈ c.writes, d.spot e.1 = p ∧ time = times e.1 :=
  view_writeAll htidy h.1 (view_removeAll h.2 hp)

end Memory

end UiScript
