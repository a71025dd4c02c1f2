import Mathlib.Logic.Relation
import UiScript.Proofs.Files.Ways
import UiScript.Proofs.Path
import UiScript.Serve.Target

/-!
# Links stay below the root

The parts of a path are shortened step by step: empty parts and single points are dropped, and a
name is dropped with the double point behind it. In what order this is done does not matter. What
is left decides where a link leads, and a link that still climbs leads nowhere.
-/

namespace UiScript.Text

variable {sep : Char} {cs part : List Char}

lemma notMem_of_mem_splitAt (h : part ∈ splitAt sep cs) : sep ∉ part := by
  induction cs generalizing part with
  | nil =>
    obtain rfl := List.mem_singleton.mp h
    exact List.not_mem_nil
  | cons c cs ih =>
    obtain ⟨first, parts, hsplit, -⟩ := splitAt_eq_cons sep cs
    by_cases hc : c = sep
    · rw [hc, splitAt_cons_sep] at h
      rcases List.mem_cons.mp h with rfl | h
      · exact List.not_mem_nil
      · exact ih h
    · rw [splitAt_cons_of_ne hc hsplit] at h
      rw [hsplit, List.forall_mem_cons] at ih
      rcases List.mem_cons.mp h with rfl | h
      · exact List.not_mem_cons_of_ne_of_not_mem (Ne.symm hc) ih.1
      · exact ih.2 part h

end UiScript.Text

namespace UiScript.Path

open List

open Item (isName isName_iff)
open Relation (ReflTransGen)

variable {absolute : Bool} {s path : String} {done parts more rest : List String}

/-! ### Shortening -/

/-- One step that shortens the parts of a path. At the root of an absolute path a double point is
dropped too. -/
inductive Shortens (absolute : Bool) : List String → List String → Prop
  | skip (front back : List String) {s : String} (hs : s.isEmpty || s == ".") :
      Shortens absolute (front ++ s :: back) (front ++ back)
  | up (front back : List String) {s : String} (hs : isName s) :
      Shortens absolute (front ++ s :: ".." :: back) (front ++ back)
  | clamp (habsolute : absolute) (back : List String) : Shortens absolute (".." :: back) back

/-- What is left of the parts of a path when no step is possible any more. -/
def Leaves (absolute : Bool) (parts rest : List String) : Prop :=
  ReflTransGen (Shortens absolute) parts rest ∧ ∀ more, ¬ Shortens absolute rest more

lemma part_cases (s : String) : (s.isEmpty || s == ".") ∨ s = ".." ∨ isName s := by
  by_cases hskip : s.isEmpty || s == "."
  · exact .inl hskip
  · by_cases hup : s = ".."
    · exact .inr (.inl hup)
    · exact .inr (.inr (isName_iff.mpr ⟨hskip, by simpa using hup⟩))

lemma not_isName_up : ¬ isName ".." := by decide

lemma simplify_skip (hs : s.isEmpty || s == ".") (done more : List String) :
    simplify absolute done (s :: more) = simplify absolute done more := by
  rw [simplify.eq_def]
  exact if_pos hs

lemma simplify_name (hs : isName s) (done more : List String) :
    simplify absolute done (s :: more) = simplify absolute (s :: done) more := by
  rw [isName_iff] at hs
  rw [simplify.eq_def]
  exact (if_neg hs.1).trans (if_neg hs.2)

lemma simplify_up (hs : isName s) (done more : List String) :
    simplify absolute (s :: done) (".." :: more) = simplify absolute done more :=
  if_neg (isName_iff.mp hs).2

lemma simplify_append (done parts more : List String) :
    simplify absolute done (parts ++ more) =
      simplify absolute (simplify absolute done parts).reverse more := by
  induction parts generalizing done with
  | nil => simp [simplify]
  | cons s parts ih =>
    rw [cons_append]
    rcases part_cases s with hskip | rfl | hname
    · rw [simplify_skip hskip, simplify_skip hskip, ih]
    · cases done with
      | nil => exact ih _
      | cons last before =>
        by_cases hlast : last == ".."
        · simpa [simplify, hlast] using ih (".." :: last :: before)
        · simpa [simplify, hlast] using ih before
    · rw [simplify_name hname, simplify_name hname, ih]

/-- A step does not change what is left. -/
lemma Shortens.simplify_eq (h : Shortens absolute parts rest) :
    simplify absolute [] parts = simplify absolute [] rest := by
  cases h with
  | skip front back hs => rw [simplify_append, simplify_append, simplify_skip hs]
  | up front back hs => rw [simplify_append, simplify_append, simplify_name hs, simplify_up hs]
  | clamp habsolute => simp [simplify, habsolute]

/-! ### What is left -/

/-- Parts in reverse that cannot be shortened: names, and below them what climbs from a relative
path. -/
inductive Settled (absolute : Bool) : List String → Prop
  | nil : Settled absolute []
  | up {done : List String} (habsolute : absolute = false) (hdone : ∀ s ∈ done, s = "..") :
      Settled absolute (".." :: done)
  | name {s : String} {done : List String} (hs : isName s) (h : Settled absolute done) :
      Settled absolute (s :: done)

/-- The parts are shortened as far as possible. -/
lemma Settled.simplify (h : Settled absolute done) (parts : List String) :
    ∃ rest, simplify absolute done parts = rest.reverse ∧ Settled absolute rest ∧
      ReflTransGen (Shortens absolute) (done.reverse ++ parts) rest.reverse := by
  induction parts generalizing done with
  | nil => exact ⟨done, rfl, h, by rw [append_nil]⟩
  | cons s parts ih =>
    rcases part_cases s with hskip | rfl | hname
    · obtain ⟨rest, heq, hrest, hsteps⟩ := ih h
      exact ⟨rest, (simplify_skip hskip _ _).trans heq, hrest, .head (.skip _ _ hskip) hsteps⟩
    · cases h with
      | nil =>
        cases absolute with
        | true =>
          obtain ⟨rest, heq, hrest, hsteps⟩ := ih .nil
          exact ⟨rest, heq, hrest, .head (.clamp rfl parts) hsteps⟩
        | false => exact ih (.up rfl (forall_mem_nil _))
      | up habsolute hdone =>
        have hmore := ih (.up habsolute (forall_mem_cons.mpr ⟨rfl, hdone⟩))
        rwa [reverse_cons, append_assoc] at hmore
      | @name last before hs h =>
        obtain ⟨rest, heq, hrest, hsteps⟩ := ih h
        refine ⟨rest, (simplify_up hs _ _).trans heq, hrest, .head ?_ hsteps⟩
        rw [reverse_cons, append_assoc]
        exact .up _ _ hs
    · have hmore := ih (.name hname h)
      rwa [reverse_cons, append_assoc, ← simplify_name hname] at hmore

namespace Settled

lemma of_append (h : Settled absolute (parts ++ more)) : Settled absolute more := by
  induction parts with
  | nil => exact h
  | cons s parts ih =>
    cases h with
    | name _ h => exact ih h
    | up habsolute hdone =>
      cases more with
      | nil => exact .nil
      | cons t =>
        obtain rfl := hdone t (by simp)
        exact .up habsolute fun u hu => hdone u (by simp [hu])

lemma mem (h : Settled absolute parts) (hs : s ∈ parts) :
    s = ".." ∧ absolute = false ∨ isName s := by
  obtain ⟨front, back, rfl⟩ := append_of_mem hs
  cases h.of_append with
  | up habsolute => exact .inl ⟨rfl, habsolute⟩
  | name hs => exact .inr hs

lemma not_shortens (h : Settled absolute parts) : ¬ Shortens absolute parts.reverse more := by
  generalize hrest : parts.reverse = rest
  obtain rfl := reverse_eq_iff.mp hrest
  intro hstep
  cases hstep with
  | @skip front back s hs =>
    rcases h.mem (s := s) (by simp) with ⟨rfl, -⟩ | hname
    · cases hs
    · exact (isName_iff.mp hname).1 hs
  | @up front back s hs =>
    rw [reverse_append, reverse_cons, reverse_cons, append_assoc,
      append_assoc] at h
    cases h.of_append with
    | up _ hdone => exact not_isName_up (hdone s (by simp) ▸ hs)
    | name hs => exact not_isName_up hs
  | clamp habsolute =>
    rcases h.mem (s := "..") (by simp) with ⟨-, hrelative⟩ | hname
    · cases habsolute.symm.trans hrelative
    · exact not_isName_up hname

/-- If anything climbs, the first part does. -/
lemma head? (h : Settled absolute parts) :
    ".." ∈ parts ↔ parts.reverse.head? = some ".." := by
  refine ⟨fun hmem => ?_, fun hhead => mem_reverse.mp (mem_of_head? hhead)⟩
  obtain ⟨front, back, rfl⟩ := append_of_mem hmem
  rw [head?_reverse, getLast?_append_of_ne_nil _ (cons_ne_nil _ _)]
  rw [getLast?_eq_some_getLast (cons_ne_nil _ _)]
  cases h.of_append with
  | up _ hback =>
    have hall : ∀ s ∈ ".." :: back, s = ".." := forall_mem_cons.mpr ⟨rfl, hback⟩
    exact congrArg some (hall _ (getLast_mem _))
  | name hs => exact absurd hs not_isName_up

end Settled

lemma simplify_settled (absolute : Bool) (parts : List String) :
    ∃ rest, simplify absolute [] parts = rest.reverse ∧ Settled absolute rest ∧
      ReflTransGen (Shortens absolute) parts rest.reverse :=
  Settled.nil.simplify parts

lemma simplify_eq_of_steps (h : ReflTransGen (Shortens absolute) parts rest) :
    simplify absolute [] parts = simplify absolute [] rest := by
  induction h with
  | refl => rfl
  | tail _ hstep ih => exact ih.trans hstep.simplify_eq

/-- What is left does not depend on the order of the steps. -/
lemma leaves_iff : Leaves absolute parts rest ↔ rest = simplify absolute [] parts := by
  constructor
  · rintro ⟨hsteps, hstop⟩
    rw [simplify_eq_of_steps hsteps]
    obtain ⟨left, heq, -, hmore⟩ := simplify_settled absolute rest
    rw [heq]
    cases hmore using ReflTransGen.head_induction_on with
    | refl => rfl
    | head hstep => exact absurd hstep (hstop _)
  · rintro rfl
    obtain ⟨left, heq, hleft, hsteps⟩ := simplify_settled absolute parts
    rw [heq]
    exact ⟨hsteps, fun more => hleft.not_shortens⟩

/-! ### The text of what is left -/

lemma slash_notMem_segments (hs : s ∈ segments path) : '/' ∉ s.toList := by
  obtain ⟨cs, hcs, rfl⟩ := mem_map.mp hs
  rw [String.toList_ofList]
  exact Text.notMem_of_mem_splitAt hcs

/-- What is left was there before. -/
lemma Shortens.sublist (h : Shortens absolute parts rest) : rest.Sublist parts := by
  cases h with
  | skip front => exact (sublist_cons_self _ _).append_left front
  | up front => exact ((sublist_cons_self _ _).trans (sublist_cons_self _ _)).append_left front
  | clamp => exact sublist_cons_self _ _

lemma subset_of_steps (h : ReflTransGen (Shortens absolute) parts rest) : rest ⊆ parts := by
  induction h with
  | refl => exact List.Subset.refl _
  | tail _ hstep ih => exact List.Subset.trans hstep.sublist.subset ih

end UiScript.Path

namespace UiScript.Serve

open UiScript.Path (Leaves segments leaves_iff leadingSlashes)

variable {path : String}

def hasTwoSlashes (path : String) : Bool := path.startsWith "//" && !path.startsWith "///"

lemma leadingSlashes_cases (path : String) :
    path.startsWith "/" = false ∧ leadingSlashes path = "" ∧ hasTwoSlashes path = false ∨
    path.startsWith "/" ∧ leadingSlashes path = "/" ∧ hasTwoSlashes path = false ∨
    path.startsWith "/" ∧ leadingSlashes path = "//" ∧ hasTwoSlashes path := by
  simp only [hasTwoSlashes, Bool.and_eq_true, Bool.not_eq_true', ← Bool.not_eq_true,
    String.startsWith_string_iff]
  unfold leadingSlashes
  split <;> simp_all [List.cons_prefix_iff]

/-- The parts of a text that starts with slashes, without the empty ones. -/
lemma segments_leadingSlashes {text : String} {rest : List String} (path : String)
    (hrest : segments text = rest) :
    ∃ empty, segments (leadingSlashes path ++ text) = empty ++ rest ∧
      ∀ s ∈ empty, s = "" := by
  subst hrest
  rcases leadingSlashes_cases path with ⟨-, hroot, -⟩ | ⟨-, hroot, -⟩ | ⟨-, hroot, -⟩ <;> rw [hroot]
  · exact ⟨[], by rw [String.empty_append]; rfl, List.forall_mem_nil _⟩
  · exact ⟨[""], Path.segments_slash "" text, by simp⟩
  · exact ⟨["", ""], Path.segments_slash "/" text, by simp⟩

/-- What is left of a path climbs only if the path is relative, and from its first part on. Else it
has names without slashes. -/
lemma leaves_parts {rest : List String}
    (hrest : Leaves (path.startsWith "/") (segments path) rest) :
    (".." ∈ rest ↔ path.startsWith "/" = false ∧ rest.head? = some "..") ∧
      ∀ s ∈ rest, s ≠ "" ∧ s ≠ "." ∧ '/' ∉ s.toList := by
  obtain ⟨left, heq, hleft, hsteps⟩ :=
    Path.simplify_settled (path.startsWith "/") (segments path)
  obtain rfl : rest = left.reverse := (leaves_iff.mp hrest).trans heq
  rw [← hleft.head?, List.mem_reverse]
  refine ⟨⟨fun hup => ⟨?_, hup⟩, And.right⟩, fun s hs => ?_⟩
  · rcases hleft.mem hup with ⟨-, hrelative⟩ | hname
    · exact hrelative
    · exact absurd hname Path.not_isName_up
  · have hslash := Path.slash_notMem_segments (Path.subset_of_steps hsteps hs)
    rcases hleft.mem (List.mem_reverse.mp hs) with ⟨rfl, -⟩ | hname
    · exact ⟨by decide, by decide, hslash⟩
    · simpa [hslash] using (Item.isName_iff.mp hname).1

/-- What is left of the path of a link decides where it leads. -/
lemma targetParts_eq {rest : List String}
    (hrest : Leaves (path.startsWith "/") (segments path) rest) :
    targetParts path = if rest = [] then some (if hasTwoSlashes path then [] else ["index.html"])
      else if ".." ∈ rest then none else some rest := by
  have habsolute : (!(leadingSlashes path).isEmpty) = path.startsWith "/" := by
    rcases leadingSlashes_cases path with ⟨h, hroot, -⟩ | ⟨h, hroot, -⟩ | ⟨h, hroot, -⟩ <;>
      rw [hroot, h] <;> rfl
  unfold targetParts Path.normalize
  dsimp only
  rw [habsolute, ← leaves_iff.mp hrest]
  by_cases hnil : rest = []
  · rw [hnil, if_pos rfl, String.intercalate_nil, String.append_empty]
    rcases leadingSlashes_cases path with ⟨-, hroot, htwo⟩ | ⟨-, hroot, htwo⟩ | ⟨-, hroot, htwo⟩ <;>
      rw [hroot, htwo] <;> decide
  · obtain ⟨-, hparts⟩ := leaves_parts hrest
    obtain ⟨empty, hsegments, hempty⟩ :=
      segments_leadingSlashes path (Path.segments_intercalate hnil fun s hs => (hparts s hs).2.2)
    generalize leadingSlashes path ++ String.intercalate "/" rest = text at hsegments
    have htext (special : String) (h : ∀ s ∈ segments special, s = "" ∨ s = ".") :
        text ≠ special := by
      rintro rfl
      obtain ⟨s, hs⟩ := List.exists_mem_of_ne_nil _ hnil
      obtain ⟨hne, hpoint, -⟩ := hparts s hs
      exact (h s (hsegments ▸ List.mem_append_right _ hs)).elim hne hpoint
    have hfilter : (segments text).filter (fun s => !s.isEmpty && s != ".") = rest := by
      rw [hsegments, List.filter_append,
        List.filter_eq_nil_iff.mpr fun s hs => by simp [hempty s hs], List.nil_append,
        List.filter_eq_self]
      intro s hs
      simp [hparts s hs]
    have hnone : text.isEmpty = false := by simpa using htext "" (by decide)
    have hroot : text ≠ "/" := htext "/" (by decide)
    have hpoint : text ≠ "." := htext "." (by decide)
    simp [hnone, hroot, hpoint, hfilter, hnil]

lemma resolve_eq {root url : String} (hpath : Url.path url = .ok path) :
    resolve root url = .ok ((targetParts path).map fun parts => parts.foldl Path.join root) := by
  unfold resolve
  rw [hpath]
  rfl

/-- A link leads to a file below the root, by names alone, unless what is left of its path climbs.
That of an absolute path never does. -/
theorem resolve_confined (root url : String) {path : String} (hpath : Url.path url = .ok path) :
    ∃ rest, Leaves (path.startsWith "/") (Path.segments path) rest ∧
      (∀ rest', Leaves (path.startsWith "/") (Path.segments path) rest' → rest' = rest) ∧
      (resolve root url = .ok none ↔
        path.startsWith "/" = false ∧ rest.head? = some "..") ∧
      (resolve root url ≠ .ok none → ∃ parts : List String,
        resolve root url = .ok (some (parts.foldl Path.join root)) ∧ (rest ≠ [] → parts = rest) ∧
        ∀ part ∈ parts, part ≠ "" ∧ part ≠ "." ∧ part ≠ ".." ∧ '/' ∉ part.toList) := by
  obtain ⟨rest, hrest⟩ : ∃ rest, Leaves (path.startsWith "/") (Path.segments path) rest :=
    ⟨_, Path.leaves_iff.mpr rfl⟩
  obtain ⟨hclimbs, hparts⟩ := leaves_parts hrest
  refine ⟨rest, hrest, fun rest' hrest' => ?_, ?_⟩
  · rw [Path.leaves_iff.mp hrest, Path.leaves_iff.mp hrest']
  rw [resolve_eq hpath, targetParts_eq hrest, ← hclimbs]
  by_cases hnil : rest = []
  · subst hnil
    refine ⟨by simp, fun _ => ⟨_, rfl, fun h => absurd rfl h, ?_⟩⟩
    split_ifs
    · exact List.forall_mem_nil _
    · exact List.forall_mem_singleton.mpr (by decide)
  · rw [if_neg hnil]
    by_cases hup : ".." ∈ rest
    · simp [hup]
    · refine ⟨by simp [hup], fun _ => ⟨rest, by rw [if_neg hup]; rfl, fun _ => rfl, fun s hs => ?_⟩⟩
      obtain ⟨hempty, hpoint, hslash⟩ := hparts s hs
      exact ⟨hempty, hpoint, ne_of_mem_of_not_mem hs hup, hslash⟩


/-- Double points that are written with percent signs climb too. -/
theorem resolve_confined_encoded :
    (Url.path "x/..%2f%2E./y?z" = .ok "x/../../y" ∧ resolve "dist" "x/..%2f%2E./y?z" = .ok none) ∧
    (Url.path "/x/..%2f%2E./y?z" = .ok "/x/../../y" ∧
      resolve "dist" "/x/..%2f%2E./y?z" = .ok (some "dist/y")) := by
  have hrelative : Url.path "x/..%2f%2E./y?z" = .ok "x/../../y" := by decide +kernel
  have habsolute : Url.path "/x/..%2f%2E./y?z" = .ok "/x/../../y" := by decide +kernel
  refine ⟨⟨hrelative, ?_⟩, habsolute, ?_⟩
  · obtain ⟨rest, hrest, -, hnone, -⟩ := resolve_confined "dist" _ hrelative
    rw [hnone, Path.leaves_iff.mp hrest]
    decide +kernel
  · obtain ⟨rest, hrest, -, hnone, hsome⟩ := resolve_confined "dist" _ habsolute
    obtain rfl : rest = ["y"] := (Path.leaves_iff.mp hrest).trans (by decide +kernel)
    obtain ⟨parts, heq, hparts, -⟩ := hsome (mt hnone.mp (by decide +kernel))
    rw [heq, hparts (List.cons_ne_nil _ _)]
    decide +kernel

/-- A link whose path comes to nothing leads to the index page, but not if the path starts with just
two slashes: then it leads to the root itself. -/
theorem resolve_index (root url : String) {path : String} (hpath : Url.path url = .ok path)
    (hroot : Leaves (path.startsWith "/") (Path.segments path) []) :
    resolve root url =
      .ok (some (if hasTwoSlashes path then root else Path.join root "index.html")) := by
  rw [resolve_eq hpath, targetParts_eq hroot, if_pos rfl]
  split_ifs <;> rfl

/-- A slash that is written with a percent sign makes the second one. -/
theorem resolve_index_encoded :
    (Url.path "/a/.%2e/" = .ok "/a/../" ∧
      resolve "dist" "/a/.%2e/" = .ok (some "dist/index.html")) ∧
    (Url.path "/%2F" = .ok "//" ∧ resolve "dist" "/%2F" = .ok (some "dist")) := by
  have hup : Url.path "/a/.%2e/" = .ok "/a/../" := by decide +kernel
  have hslash : Url.path "/%2F" = .ok "//" := by decide +kernel
  refine ⟨⟨hup, ?_⟩, hslash, ?_⟩
  · rw [resolve_index "dist" _ hup (Path.leaves_iff.mpr (by decide +kernel))]
    decide +kernel
  · rw [resolve_index "dist" _ hslash (Path.leaves_iff.mpr (by decide +kernel))]
    decide +kernel

end UiScript.Serve
