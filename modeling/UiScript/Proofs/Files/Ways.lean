import UiScript.Proofs.Files.Tree

/-!
# Where paths lead

`Item.Leads` says as a relation where the parts of a path lead. As long as folders are added and
files written over, a path that led somewhere leads there still. `Item.resolve` tells the place that
a path names whether or not something stands there; it depends on the links of a tree alone.
-/

namespace UiScript.Item

open List

variable {root root' item : Item} {links : Nat} {p parts : List String} {spot : Spot}
  {part : String}

/-! ### Ways -/

def Spot.place : Spot → List String
  | .found place _ => place
  | .free above name _ => above ++ [name]

/-- The parts of a path lead from a place to a spot, through at most some links. -/
inductive Leads (root : Item) : Nat → List String → List String → Spot → Prop
  | here {links : Nat} {place : List String} {item : Item} (hitem : root.get? place = some item) :
      Leads root links place [] (.found place item)
  | skip {links : Nat} {place more : List String} {part : String} {spot : Spot}
      (hplace : root.view place = some (.folder [])) (hpart : part.isEmpty || part == ".")
      (h : Leads root links place more spot) : Leads root links place (part :: more) spot
  | up {links : Nat} {place more : List String} {spot : Spot}
      (hplace : root.view place = some (.folder []))
      (h : Leads root links place.dropLast more spot) :
      Leads root links place (".." :: more) spot
  | enter {links : Nat} {place more : List String} {part : String} {item : Item} {spot : Spot}
      (hpart : isName part) (hitem : root.view (place ++ [part]) = some item)
      (hlink : ∀ target, item ≠ .link target) (h : Leads root links (place ++ [part]) more spot) :
      Leads root links place (part :: more) spot
  | through {links : Nat} {place more : List String} {part target : String} {spot : Spot}
      (hpart : isName part) (hlink : root.view (place ++ [part]) = some (.link target))
      (h : Leads root links (if target.startsWith "/" then [] else place)
        (Path.segments target ++ more) spot) : Leads root (links + 1) place (part :: more) spot
  | free {links : Nat} {place more : List String} {part : String}
      (hplace : root.view place = some (.folder [])) (hpart : isName part)
      (hnone : root.view (place ++ [part]) = none) (hmore : more.all (·.isEmpty)) :
      Leads root links place (part :: more) (.free place part (!more.isEmpty))

lemma isName_iff : isName part ↔ ¬ (part.isEmpty || part == ".") ∧ ¬ (part == "..") := by
  simp only [isName, Bool.not_eq_true', Bool.or_eq_false_iff, Bool.not_eq_true]

lemma view_of_get? (h : root.get? p = some item) : root.view p = some item.shape :=
  congrArg (Option.map shape) h

/-- The function goes the ways that the relation tells. -/
lemma leads_of_walk {jump : List String → List String → Except FileTrouble Spot}
    (hjump : ∀ p part target more, isName part → root.view (p ++ [part]) = some (.link target) →
      jump (if target.startsWith "/" then [] else p) (Path.segments target ++ more) = .ok spot →
      Leads root links p (part :: more) spot)
    (h : root.walk jump p parts = .ok spot) : Leads root links p parts spot := by
  induction parts generalizing p with
  | nil =>
    rw [walk] at h
    cases hitem : root.get? p with
    | none =>
      rw [hitem] at h
      cases h
    | some =>
      rw [hitem] at h
      cases h
      exact .here hitem
  | cons part more ih =>
    rw [walk] at h
    cases hitem : root.get? p with
    | none =>
      rw [hitem] at h
      cases h
    | some item =>
      rw [hitem] at h
      cases item with
      | file | link => cases h
      | folder entries =>
        have hfolder := view_eq_folder.mpr ⟨entries, hitem⟩
        dsimp only at h
        split at h
        · rename_i hpart
          exact .skip hfolder hpart (ih h)
        · rename_i hpart
          split at h
          · rename_i hup
            obtain rfl := beq_iff_eq.mp hup
            exact .up hfolder (ih h)
          · rename_i hup
            have hname := isName_iff.mpr ⟨hpart, hup⟩
            rw [lookup_eq_get? hitem] at h
            cases hnext : root.get? (p ++ [part]) with
            | none =>
              rw [hnext] at h
              dsimp only at h
              split at h
              · rename_i hmore
                cases h
                exact .free hfolder hname (view_eq_none.mpr hnext) hmore
              · cases h
            | some next =>
              rw [hnext] at h
              cases next with
              | link target => exact hjump p part target more hname (view_eq_link.mpr hnext) h
              | file | folder =>
                exact .enter hname (view_of_get? hnext) (by simp [shape]) (ih h)

lemma leads_of_follow (h : root.follow links p parts = .ok spot) :
    Leads root links p parts spot := by
  induction links generalizing p parts with
  | zero => exact leads_of_walk (fun _ _ _ _ _ _ h => by cases h) h
  | succ links ih =>
    exact leads_of_walk (fun _ _ _ _ hname hlink h => .through hname hlink (ih h)) h

lemma exists_walk (root : Item) (links : Nat) : ∃ jump, root.follow links = root.walk jump := by
  cases links <;> exact ⟨_, rfl⟩

lemma follow_of_leads (h : Leads root links p parts spot) :
    root.follow links p parts = .ok spot := by
  induction h with
  | @here links _ _ hitem =>
    obtain ⟨jump, hjump⟩ := exists_walk root links
    rw [hjump, walk, hitem]
  | @skip links _ _ _ _ hplace hpart _ ih =>
    obtain ⟨jump, hjump⟩ := exists_walk root links
    obtain ⟨entries, hplace⟩ := view_eq_folder.mp hplace
    rw [hjump] at ih
    rw [hjump, walk, hplace]
    dsimp only
    rw [if_pos hpart, ih]
  | @up links _ _ _ hplace _ ih =>
    obtain ⟨jump, hjump⟩ := exists_walk root links
    obtain ⟨entries, hplace⟩ := view_eq_folder.mp hplace
    rw [hjump] at ih
    rw [hjump, walk, hplace]
    exact ih
  | @enter links place more part item spot hpart hitem hlink _ ih =>
    obtain ⟨jump, hjump⟩ := exists_walk root links
    obtain ⟨entries, hplace⟩ := view_eq_folder.mp
      (view_folder_of_append (by rw [hitem]; exact Option.some_ne_none _) (cons_ne_nil _ _))
    obtain ⟨x, hx, rfl⟩ := Option.map_eq_some_iff.mp hitem
    rw [isName_iff] at hpart
    rw [hjump] at ih
    rw [hjump, walk, hplace]
    dsimp only
    rw [if_neg hpart.1, if_neg hpart.2, lookup_eq_get? hplace, hx]
    cases x with
    | link target => exact absurd rfl (hlink target)
    | file | folder => exact ih
  | through hpart hlink _ ih =>
    obtain ⟨entries, hplace⟩ := view_eq_folder.mp
      (view_folder_of_append (by rw [hlink]; exact Option.some_ne_none _) (cons_ne_nil _ _))
    rw [isName_iff] at hpart
    rw [follow, walk, hplace]
    dsimp only
    rw [if_neg hpart.1, if_neg hpart.2, lookup_eq_get? hplace, view_eq_link.mp hlink]
    exact ih
  | @free links _ _ _ hplace hpart hnone hmore =>
    obtain ⟨jump, hjump⟩ := exists_walk root links
    obtain ⟨entries, hplace⟩ := view_eq_folder.mp hplace
    rw [isName_iff] at hpart
    rw [hjump, walk, hplace]
    dsimp only
    rw [if_neg hpart.1, if_neg hpart.2, lookup_eq_get? hplace, view_eq_none.mp hnone]
    exact if_pos hmore

lemma Leads.start (h : Leads root links p parts spot) : root.view p ≠ none := by
  cases h with
  | here hitem => simp [view_of_get? hitem]
  | skip hplace | up hplace | free hplace => simp [hplace]
  | enter _ hitem | through _ hitem =>
    simp [view_folder_of_append (p := p) (by rw [hitem]; simp) (cons_ne_nil _ _)]

lemma Leads.start_folder (h : Leads root links p parts spot) (hparts : parts ≠ []) :
    root.view p = some (.folder []) := by
  cases h with
  | here => exact absurd rfl hparts
  | skip hplace | up hplace | free hplace => exact hplace
  | enter _ hitem | through _ hitem =>
    exact view_folder_of_append (by rw [hitem]; simp) (cons_ne_nil _ _)

lemma view_dropLast (h : root.view p = some (.folder [])) :
    root.view p.dropLast = some (.folder []) := by
  rcases eq_nil_or_concat p with rfl | ⟨q, name, rfl⟩
  · exact h
  · rw [concat_eq_append] at h
    rw [concat_eq_append, dropLast_concat]
    exact view_folder_of_append (by rw [h]; simp) (cons_ne_nil _ _)

lemma Leads.get?_found {place : List String} (h : Leads root links p parts (.found place item)) :
    root.get? place = some item := by
  generalize hspot : Spot.found place item = spot at h
  induction h with
  | here hitem =>
    cases hspot
    exact hitem
  | free => cases hspot
  | skip _ _ _ ih | up _ _ ih | enter _ _ _ _ ih | through _ _ _ ih => exact ih hspot

/-- A free spot is in a folder, and nothing stands there. -/
lemma Leads.view_free {above : List String} {name : String} {asFolder : Bool}
    (h : Leads root links p parts (.free above name asFolder)) :
    root.view above = some (.folder []) ∧ root.view (above ++ [name]) = none := by
  generalize hspot : Spot.free above name asFolder = spot at h
  induction h with
  | here => cases hspot
  | free hplace _ hnone =>
    cases hspot
    exact ⟨hplace, hnone⟩
  | skip _ _ _ ih | up _ _ ih | enter _ _ _ _ ih | through _ _ _ ih => exact ih hspot

lemma Leads.found_ne_link {place : List String} (h : Leads root links p parts (.found place item))
    (hp : ∀ target, root.view p ≠ some (.link target)) (target : String) : item ≠ .link target := by
  generalize hspot : Spot.found place item = spot at h
  induction h with
  | here hitem =>
    cases hspot
    rintro rfl
    exact hp target (view_of_get? hitem)
  | skip _ _ _ ih => exact ih hp hspot
  | up hplace _ ih => exact ih (by simp [view_dropLast hplace]) hspot
  | enter _ hitem hlink _ ih =>
    exact ih (fun target => by simpa [hitem] using hlink target) hspot
  | @through _ q _ part _ _ _ hlink _ ih =>
    have hplace := view_folder_of_append (by rw [hlink]; simp) (cons_ne_nil _ _)
    have hroot : root.view [] = some (.folder []) :=
      view_folder_of_append (q := q ++ [part]) (by rw [nil_append, hlink]; simp) (by simp)
    refine ih (fun target => ?_) hspot
    split
    · simp [hroot]
    · simp [hplace]
  | free => cases hspot

lemma slash_notMem_segments (path : String) : ∀ part ∈ Path.segments path, '/' ∉ part.toList := by
  have hsplit (cs : List Char) : ∀ part ∈ Text.splitAt '/' cs, '/' ∉ part := by
    induction cs with
    | nil => simp [Text.splitAt]
    | cons c cs ih =>
      rw [Text.splitAt]
      split
      · exact forall_mem_cons.mpr ⟨not_mem_nil, ih⟩
      · rename_i hc
        split
        · rename_i part parts hparts
          rw [hparts, forall_mem_cons] at ih
          refine forall_mem_cons.mpr ⟨?_, ih.2⟩
          simpa [ih.1] using fun h => hc (beq_iff_eq.mpr (Eq.symm h))
        · simpa using fun h => hc (beq_iff_eq.mpr (Eq.symm h))
  intro part hpart
  obtain ⟨cs, hcs, rfl⟩ := mem_map.mp hpart
  rw [String.toList_ofList]
  exact hsplit path.toList cs hcs

lemma Leads.isProper_free {above : List String} {name : String} {asFolder : Bool}
    (h : Leads root links p parts (.free above name asFolder))
    (hparts : ∀ part ∈ parts, '/' ∉ part.toList) : isProper name := by
  generalize hspot : Spot.free above name asFolder = spot at h
  induction h with
  | here => cases hspot
  | skip _ _ _ ih | up _ _ ih | enter _ _ _ _ ih =>
    exact ih (forall_mem_cons.mp hparts).2 hspot
  | through _ _ _ ih =>
    refine ih (forall_mem_append.mpr ⟨slash_notMem_segments _, ?_⟩) hspot
    exact (forall_mem_cons.mp hparts).2
  | free _ hpart =>
    cases hspot
    have hslash := (forall_mem_cons.mp hparts).1
    simpa [isProper, hpart] using hslash

/-! ### Ways through edited trees -/

/-- A spot at which a file may stand. -/
def Spot.isOpen : Spot → Bool
  | .found _ _ => true
  | .free _ _ asFolder => !asFolder

/-- In an edited tree a path still leads to its place, if something stands there. -/
lemma Leads.edited {written : List String → Prop} (hedits : Edits written root root')
    (h : Leads root links p parts spot) (hopen : spot.isOpen)
    (hitem : root'.get? spot.place = some item) :
    Leads root' links p parts (.found spot.place item) := by
  induction h with
  | here => exact .here hitem
  | skip hplace hpart _ ih => exact .skip (hedits.folder hplace) hpart (ih hopen hitem)
  | up hplace _ ih => exact .up (hedits.folder hplace) (ih hopen hitem)
  | @enter links place more part old spot hpart hold hlink h ih =>
    have hrest := ih hopen hitem
    obtain ⟨new, hnew⟩ := Option.ne_none_iff_exists'.mp hrest.start
    refine .enter hpart hnew (fun target htarget => ?_) hrest
    rw [htarget, hedits.link, hold] at hnew
    exact hlink target (Option.some.inj hnew)
  | through hpart hlink _ ih => exact .through hpart ((hedits.link _ _).mpr hlink) (ih hopen hitem)
  | @free links place more part hplace hpart hnone hmore =>
    obtain rfl : more = [] := by simpa [Spot.isOpen] using hopen
    refine .enter hpart (view_of_get? hitem) (fun target htarget => ?_) (.here hitem)
    have hlink : root'.view (place ++ [part]) = some (.link target) := htarget ▸ view_of_get? hitem
    rw [hedits.link, hnone] at hlink
    cases hlink

/-- The place that the parts of a path name, whether or not something stands there: everything but a
link is taken for a folder. Behind a link it goes on as `jump` says. -/
@[simp] def resolveWith (root : Item) (jump : List String → List String → Option (List String))
    (place : List String) : List String → Option (List String)
  | [] => some place
  | part :: more =>
    if part.isEmpty || part == "." then resolveWith root jump place more
    else if part == ".." then resolveWith root jump place.dropLast more
    else
      match root.view (place ++ [part]) with
      | some (.link target) =>
        jump (if target.startsWith "/" then [] else place) (Path.segments target ++ more)
      | _ => resolveWith root jump (place ++ [part]) more

lemma resolveWith_enter (h : isName part)
    (hlink : ∀ target, root.view (p ++ [part]) ≠ some (.link target))
    (jump : List String → List String → Option (List String)) (more : List String) :
    root.resolveWith jump p (part :: more) = root.resolveWith jump (p ++ [part]) more := by
  rw [isName_iff] at h
  rw [resolveWith, if_neg h.1, if_neg h.2]
  cases hitem : root.view (p ++ [part]) with
  | none => rfl
  | some item =>
    cases item with
    | link target => exact absurd hitem (hlink target)
    | file | folder => rfl

/-- The place that the parts of a path name, where at most some links are resolved. -/
def resolve (root : Item) : Nat → List String → List String → Option (List String)
  | 0 => resolveWith root fun _ _ => none
  | links + 1 => resolveWith root (resolve root links)

lemma exists_resolveWith (root : Item) (links : Nat) :
    ∃ jump, root.resolve links = root.resolveWith jump := by
  cases links <;> exact ⟨_, rfl⟩

lemma resolve_nil (root : Item) (links : Nat) (p : List String) :
    root.resolve links p [] = some p := by
  obtain ⟨jump, hjump⟩ := exists_resolveWith root links
  rw [hjump, resolveWith]

lemma resolve_skip (h : part.isEmpty || part == ".") (more : List String) :
    root.resolve links p (part :: more) = root.resolve links p more := by
  obtain ⟨jump, hjump⟩ := exists_resolveWith root links
  rw [hjump, resolveWith, if_pos h]

lemma resolve_up (more : List String) :
    root.resolve links p (".." :: more) = root.resolve links p.dropLast more := by
  obtain ⟨jump, hjump⟩ := exists_resolveWith root links
  rw [hjump, resolveWith]
  rfl

lemma resolve_enter (h : isName part)
    (hlink : ∀ target, root.view (p ++ [part]) ≠ some (.link target)) (more : List String) :
    root.resolve links p (part :: more) = root.resolve links (p ++ [part]) more := by
  obtain ⟨jump, hjump⟩ := exists_resolveWith root links
  rw [hjump, resolveWith_enter h hlink]

lemma resolve_through {target : String} (h : isName part)
    (hlink : root.view (p ++ [part]) = some (.link target)) (more : List String) :
    root.resolve (links + 1) p (part :: more) =
      root.resolve links (if target.startsWith "/" then [] else p)
        (Path.segments target ++ more) := by
  rw [isName_iff] at h
  rw [resolve, resolveWith, if_neg h.1, if_neg h.2, hlink]

lemma resolve_empty (hparts : parts.all (·.isEmpty)) : root.resolve links p parts = some p := by
  induction parts with
  | nil => rw [resolve_nil]
  | cons part more ih =>
    rw [all_cons, Bool.and_eq_true] at hparts
    rw [resolve_skip (by rw [hparts.1, Bool.true_or]), ih hparts.2]

/-- A path leads to the place that it names. -/
lemma Leads.resolve_eq (h : Leads root links p parts spot) :
    root.resolve links p parts = some spot.place := by
  induction h with
  | here => exact resolve_nil _ _ _
  | skip _ hpart _ ih => rw [resolve_skip hpart, ih]
  | up _ _ ih => rw [resolve_up, ih]
  | enter hpart hitem hlink _ ih =>
    rw [resolve_enter hpart (fun target => by simpa [hitem] using hlink target), ih]
  | through hpart hlink _ ih => rw [resolve_through hpart hlink, ih]
  | free _ hpart hnone hmore =>
    rw [resolve_enter hpart (by simp [hnone]), resolve_empty hmore]
    rfl

/-- Trees with the same links have the same names for all places. -/
lemma resolve_congr
    (h : ∀ p target, root'.view p = some (.link target) ↔ root.view p = some (.link target)) :
    root'.resolve links = root.resolve links := by
  have hwith (jump : List String → List String → Option (List String)) (parts : List String) :
      ∀ p, root'.resolveWith jump p parts = root.resolveWith jump p parts := by
    induction parts with
    | nil => exact fun _ => rfl
    | cons part more ih =>
      intro p
      by_cases hname : isName part
      · by_cases hlink : ∃ target, root.view (p ++ [part]) = some (.link target)
        · obtain ⟨target, hlink⟩ := hlink
          rw [resolveWith, resolveWith, hlink, (h _ _).mpr hlink, ih, ih]
        · have hno := not_exists.mp hlink
          rw [resolveWith_enter hname hno,
            resolveWith_enter hname fun target => mt (h _ _).mp (hno target), ih]
      · rw [resolveWith, resolveWith, ih, ih]
        grind
  induction links with
  | zero => exact funext fun p => funext fun parts => hwith _ parts p
  | succ links ih =>
    rw [resolve, resolve, ih]
    exact funext fun p => funext fun parts => hwith _ parts p

end UiScript.Item

namespace UiScript.Disk

variable {d d' d'' : Disk} {path : String} {spot : Item.Spot} {written : List String → Prop}

/-- The place that a path names, whether or not something stands there. -/
def resolve (d : Disk) (path : String) : Option (List String) :=
  if path.isEmpty then none
  else d.root.resolve maxLinks [] (Path.segments (Path.join d.workingDir path))

lemma locate_eq_ok : d.locate path = .ok spot ↔ path.isEmpty = false ∧
    Item.Leads d.root maxLinks [] (Path.segments (Path.join d.workingDir path)) spot := by
  unfold locate
  cases path.isEmpty with
  | true => simp
  | false =>
    exact ⟨fun h => ⟨rfl, Item.leads_of_follow h⟩, fun h => Item.follow_of_leads h.2⟩

lemma resolve_of_locate (h : d.locate path = .ok spot) : d.resolve path = some spot.place := by
  obtain ⟨hpath, h⟩ := locate_eq_ok.mp h
  rw [resolve, if_neg (by simp [hpath]), h.resolve_eq]

/-- The second disk comes from the first one by edits. -/
structure Edited (written : List String → Prop) (d d' : Disk) : Prop where
  root : Item.Edits written d.root d'.root
  workingDir : d'.workingDir = d.workingDir
  locked : d'.locked = d.locked

namespace Edited

lemma refl (written : List String → Prop) (d : Disk) : Edited written d d := ⟨.refl, rfl, rfl⟩

lemma trans (h : Edited written d d') (h' : Edited written d' d'') : Edited written d d'' :=
  ⟨h.root.trans h'.root, h'.workingDir.trans h.workingDir, h'.locked.trans h.locked⟩

lemma mono {written' : List String → Prop} (h : Edited written d d')
    (hle : ∀ p, written p → written' p) : Edited written' d d' :=
  ⟨h.root.mono hle, h.workingDir, h.locked⟩

/-- Paths name the places that they named. -/
lemma resolve (h : Edited written d d') (path : String) : d'.resolve path = d.resolve path := by
  rw [Disk.resolve, Disk.resolve, h.workingDir, Item.resolve_congr h.root.link]

/-- A path still leads to its place, if something stands there. -/
lemma locate (h : Edited written d d') (hspot : d.locate path = .ok spot) (hopen : spot.isOpen)
    {item : Item} (hitem : d'.root.get? spot.place = some item) :
    d'.locate path = .ok (.found spot.place item) := by
  obtain ⟨hpath, hleads⟩ := locate_eq_ok.mp hspot
  refine locate_eq_ok.mpr ⟨hpath, ?_⟩
  rw [h.workingDir]
  exact hleads.edited h.root hopen hitem

end Edited

/-! ### Files by their paths -/

/-- The file that a path leads to: its place and its contents. -/
def fileAt (d : Disk) (path : String) : Option (List String × List UInt8) :=
  match d.locate path with
  | .ok (.found place (.file bytes _)) => some (place, bytes)
  | _ => none

/-- The contents of the file at a place. -/
def bytesAt (d : Disk) (place : List String) : Option (List UInt8) :=
  match d.root.view place with
  | some (.file bytes _) => some bytes
  | _ => none

variable {place : List String} {bytes : List UInt8}

lemma fileAt_eq_some :
    d.fileAt path = some (place, bytes) ↔
      ∃ time, d.locate path = .ok (.found place (.file bytes time)) := by
  unfold fileAt
  cases d.locate path with
  | error => simp
  | ok spot =>
    cases spot with
    | free => simp
    | found place item => cases item <;> simp

lemma bytesAt_eq_some :
    d.bytesAt place = some bytes ↔ ∃ time, d.root.view place = some (.file bytes time) := by
  unfold bytesAt
  cases d.root.view place with
  | none => simp
  | some item => cases item <;> simp

lemma isFile_eq (d : Disk) (path : String) : d.isFile path = (d.fileAt path).isSome := by
  unfold isFile item fileAt
  cases d.locate path with
  | error => rfl
  | ok spot =>
    cases spot with
    | free => rfl
    | found place item => cases item <;> rfl

lemma read_of_fileAt (h : d.fileAt path = some (place, bytes)) :
    d.read path =
      if d.locked.contains place then .error { trouble := .denied, path } else .ok bytes := by
  obtain ⟨time, h⟩ := fileAt_eq_some.mp h
  unfold read item isLocked
  rw [h]
  change (if d.locked.contains place then _ else _) = _
  split <;> rfl

lemma resolve_of_fileAt (h : d.fileAt path = some (place, bytes)) :
    d.resolve path = some place ∧ d.bytesAt place = some bytes := by
  obtain ⟨time, h⟩ := fileAt_eq_some.mp h
  refine ⟨resolve_of_locate h, bytesAt_eq_some.mpr ⟨time, Item.view_eq_file.mpr ?_⟩⟩
  exact (locate_eq_ok.mp h).2.get?_found

namespace Edited

variable {place : List String} {bytes : List UInt8}

lemma bytesAt (h : Edited written d d') (hplace : ¬ written place) :
    d'.bytesAt place = d.bytesAt place := by
  refine Option.ext fun bytes => ?_
  rw [bytesAt_eq_some, bytesAt_eq_some]
  exact exists_congr fun time => h.root.file hplace bytes time

lemma fileAt_of_fileAt (h : Edited written d d') (hplace : ¬ written place)
    (hfile : d.fileAt path = some (place, bytes)) : d'.fileAt path = some (place, bytes) := by
  obtain ⟨time, hlocate⟩ := fileAt_eq_some.mp hfile
  have hitem := Item.view_eq_file.mpr (locate_eq_ok.mp hlocate).2.get?_found
  refine fileAt_eq_some.mpr ⟨time, h.locate hlocate rfl ?_⟩
  exact Item.view_eq_file.mp ((h.root.file hplace bytes time).mpr hitem)

/-- A path leads to the same file as before, if it led to one as soon as there was one at the place
that it names. -/
lemma fileAt (h : Edited written d d')
    (hplace : ∀ place, d.resolve path = some place → ¬ written place)
    (hreached : ∀ place, d.resolve path = some place → (d.bytesAt place).isSome →
      (d.fileAt path).isSome) : d'.fileAt path = d.fileAt path := by
  cases hfile : d.fileAt path with
  | some file =>
    obtain ⟨place, bytes⟩ := file
    exact h.fileAt_of_fileAt (hplace place (resolve_of_fileAt hfile).1) hfile
  | none =>
    rw [Option.eq_none_iff_forall_ne_some]
    rintro ⟨place, bytes⟩ hfile'
    obtain ⟨hresolve, hbytes⟩ := resolve_of_fileAt hfile'
    rw [h.resolve] at hresolve
    rw [h.bytesAt (hplace place hresolve)] at hbytes
    have := hreached place hresolve (by rw [hbytes]; rfl)
    rw [hfile] at this
    cases this

end Edited

end UiScript.Disk
