import UiScript.Proofs.Files.Ways
import UiScript.Proofs.Path

/-!
# Paths where there are no links

In a tree without links the place that a path names is read off its parts. Below a folder that a
path leads to, names lead on to what stands there.
-/

namespace UiScript.Item

variable {root : Item} {links : Nat} {p q parts more names : List String} {spot : Spot}

/-! ### Parts and places -/

/-- The place that parts name from another one. -/
def onward (place : List String) : List String → List String
  | [] => place
  | part :: more =>
    if part.isEmpty || part == "." then onward place more
    else if part == ".." then onward place.dropLast more
    else onward (place ++ [part]) more

lemma onward_append (p parts more : List String) :
    onward p (parts ++ more) = onward (onward p parts) more := by
  induction parts generalizing p with
  | nil => rfl
  | cons part parts ih =>
    rw [List.cons_append, onward, onward]
    split_ifs <;> exact ih _

lemma onward_names (hnames : ∀ name ∈ names, isName name) (p : List String) :
    onward p names = p ++ names := by
  induction names generalizing p with
  | nil => rw [onward, List.append_nil]
  | cons name names ih =>
    obtain ⟨hname, hnames⟩ := List.forall_mem_cons.mp hnames
    rw [isName_iff] at hname
    rw [onward, if_neg hname.1, if_neg hname.2, ih hnames, List.append_assoc,
      List.singleton_append]

/-- A tree without links. -/
def Plain (root : Item) : Prop := ∀ p target, root.view p ≠ some (.link target)

lemma Plain.resolve (h : root.Plain) (links : Nat) (p parts : List String) :
    root.resolve links p parts = some (onward p parts) := by
  induction parts generalizing p with
  | nil => exact resolve_nil _ _ _
  | cons part parts ih =>
    rw [onward]
    split_ifs with hskip hup
    · rw [resolve_skip hskip, ih]
    · obtain rfl := beq_iff_eq.mp hup
      rw [resolve_up, ih]
    · rw [resolve_enter (isName_iff.mpr ⟨hskip, hup⟩) (h _), ih]

/-! ### Going on -/

lemma Leads.append (hplain : root.Plain) {item : Item}
    (h : Leads root links p parts (.found q item)) (hmore : Leads root links q more spot) :
    Leads root links p (parts ++ more) spot := by
  generalize hfound : Spot.found q item = found at h
  induction h with
  | here =>
    cases hfound
    exact hmore
  | skip hplace hpart _ ih => exact .skip hplace hpart (ih hmore hfound)
  | up hplace _ ih => exact .up hplace (ih hmore hfound)
  | enter hpart hitem hlink _ ih => exact .enter hpart hitem hlink (ih hmore hfound)
  | through _ hlink => exact absurd hlink (hplain _ _)
  | free => cases hfound

lemma Leads.drop_empty (hplain : root.Plain) {name : String} (hname : isName name)
    (h : Leads root links p (parts ++ "" :: name :: more) spot) :
    Leads root links p (parts ++ name :: more) spot := by
  induction parts generalizing p with
  | nil =>
    generalize hempty : "" = empty at h
    cases h with
    | skip _ _ h => exact h
    | up => exact absurd hempty (by decide)
    | enter hpart | through hpart | free _ hpart =>
      subst hempty
      cases hpart
  | cons part parts ih =>
    cases h with
    | skip hplace hpart h => exact .skip hplace hpart (ih h)
    | up hplace h => exact .up hplace (ih h)
    | enter hpart hitem hlink h => exact .enter hpart hitem hlink (ih h)
    | through _ hlink => exact absurd hlink (hplain _ _)
    | free =>
      rw [isName_iff] at hname
      simp_all

end UiScript.Item

namespace UiScript.Disk

open Item

variable {d : Disk} {base path q name : String} {p names : List String} {item : Item}

lemma join_ne_empty (hq : q.startsWith "/" = false) (hempty : q.isEmpty = false) :
    (Path.join base q).isEmpty = false := by
  rw [Path.join_eq hq]
  simpa [String.isEmpty_eq_false_iff] using fun _ => Path.toList_ne_nil hempty

lemma isName_of_isProper (h : isProper name) : isName name ∧ '/' ∉ name.toList := by
  simpa [isProper] using h

lemma isEmpty_of_isName (h : isName name) : name.isEmpty = false := by
  have hname := (isName_iff.mp h).1
  simp_all

/-- The text of proper names starts with a name. -/
lemma intercalate_proper (hne : names ≠ []) (hnames : ∀ n ∈ names, isProper n) :
    Path.segments (String.intercalate "/" names) = names ∧
      (String.intercalate "/" names).isEmpty = false ∧
      (String.intercalate "/" names).startsWith "/" = false := by
  have hparts := Path.segments_intercalate hne fun n hn => (isName_of_isProper (hnames n hn)).2
  have hfirst : names.head? ≠ some "" := fun h =>
    Bool.false_ne_true (hnames "" (List.mem_of_head? h))
  generalize String.intercalate "/" names = q at hparts ⊢
  rw [← hparts] at hfirst
  refine ⟨hparts, ?_, ?_⟩ <;> rw [← Bool.not_eq_true]
  · rw [String.isEmpty_iff]
    rintro rfl
    exact hfirst rfl
  · exact mt Path.head?_segments hfirst

/-- The place that a path through a folder names, where there are no links. -/
lemma resolve_join (hplain : d.root.Plain) (hne : names ≠ []) (hnames : ∀ n ∈ names, isProper n) :
    d.resolve (Path.join base (String.intercalate "/" names)) =
      some (onward [] (Path.segments (Path.join d.workingDir base)) ++ names) := by
  have hisName : ∀ n ∈ names, isName n := fun n hn => (isName_of_isProper (hnames n hn)).1
  obtain ⟨hparts, hempty, hq⟩ := intercalate_proper hne hnames
  obtain ⟨parts, hbase, hjoin⟩ := Path.segments_join (Path.join d.workingDir base) hq
  rw [resolve, if_neg (by simp [join_ne_empty hq hempty]), Path.join_assoc hq, hplain.resolve,
    hjoin, onward_append, hparts, onward_names hisName]
  rcases hbase with rfl | hbase
  · rfl
  · rw [hbase, onward_append]
    rfl

lemma locate_name (hplain : d.root.Plain) {entries : List (String × Item)}
    (hfolder : d.locate base = .ok (.found p (.folder entries))) (hname : isProper name)
    (hitem : d.root.get? (p ++ [name]) = some item) :
    d.locate (Path.join base name) = .ok (.found (p ++ [name]) item) := by
  obtain ⟨hisName, hslash⟩ := isName_of_isProper hname
  have hq := Path.startsWith_of_notMem hslash
  have hleads := (locate_eq_ok.mp hfolder).2
  refine locate_eq_ok.mpr ⟨join_ne_empty hq (isEmpty_of_isName hisName), ?_⟩
  have hmore : Leads d.root maxLinks p [name] (.found (p ++ [name]) item) := by
    refine .enter hisName (view_of_get? hitem) (fun target h => ?_) (.here hitem)
    exact hplain (p ++ [name]) target (by rw [view_of_get? hitem, h])
  obtain ⟨parts, hbase, hjoin⟩ := Path.segments_join (Path.join d.workingDir base) hq
  rw [Path.join_assoc hq, hjoin, Path.segments_of_notMem hslash]
  rcases hbase with rfl | hbase
  · exact hleads.append hplain hmore
  · rw [hbase] at hleads
    have happend := hleads.append hplain hmore
    rw [List.append_assoc] at happend
    exact happend.drop_empty hplain hisName

/-- Names lead from a folder to what stands below it. -/
lemma locate_names (hplain : d.root.Plain) {entries : List (String × Item)}
    (hfolder : d.locate base = .ok (.found p (.folder entries))) (hne : names ≠ [])
    (hnames : ∀ n ∈ names, isProper n) (hitem : d.root.get? (p ++ names) = some item) :
    d.locate (names.foldl Path.join base) = .ok (.found (p ++ names) item) := by
  induction names generalizing base p entries with
  | nil => exact absurd rfl hne
  | cons name names ih =>
    obtain ⟨hname, hnames⟩ := List.forall_mem_cons.mp hnames
    rw [List.foldl_cons]
    rw [List.append_cons] at hitem ⊢
    by_cases hlast : names = []
    · subst hlast
      rw [List.append_nil] at hitem ⊢
      exact locate_name hplain hfolder hname hitem
    · have hview : d.root.view (p ++ [name]) = some (.folder []) :=
        view_folder_of_append (by rw [view_of_get? hitem]; simp) hlast
      obtain ⟨entries', hentries⟩ := view_eq_folder.mp hview
      exact ih (locate_name hplain hfolder hname hentries) hlast hnames hitem

end UiScript.Disk
