import UiScript.Path
import UiScript.Proofs.Text.Parts

/-!
# Parts of paths

A path has the parts of what it was joined from, where an empty part at the end of the first path
gives way. A name is a path of one part, and names with slashes between them are the parts of their
path.
-/

namespace UiScript.Path

open List

variable {a b base path q name head : String} {names : List String}

/-! ### Slashes -/

lemma startsWith_slash : path.startsWith "/" ↔ path.toList.head? = some '/' := by
  rw [String.startsWith_string_iff, ← singleton_prefix_iff_head?_eq_some]
  rfl

lemma endsWith_slash : path.endsWith "/" ↔ path.toList.getLast? = some '/' := by
  rw [String.endsWith_eq_endsWith_toSlice, String.Slice.endsWith_string_iff, String.copy_toSlice,
    ← singleton_suffix_iff_getLast?_eq_some]
  rfl

lemma startsWith_of_notMem (h : '/' ∉ name.toList) : name.startsWith "/" = false := by
  rw [← Bool.not_eq_true, startsWith_slash]
  exact fun hhead => h (mem_of_head? hhead)

lemma toList_ne_nil (h : path.isEmpty = false) : path.toList ≠ [] := by
  simpa using h

lemma startsWith_append (h : a.isEmpty = false) : (a ++ b).startsWith "/" = a.startsWith "/" := by
  rw [Bool.eq_iff_iff, startsWith_slash, startsWith_slash, String.toList_append,
    head?_append_of_ne_nil _ (toList_ne_nil h)]

lemma endsWith_append (h : b.isEmpty = false) : (a ++ b).endsWith "/" = b.endsWith "/" := by
  rw [Bool.eq_iff_iff, endsWith_slash, endsWith_slash, String.toList_append,
    getLast?_append_of_ne_nil _ (toList_ne_nil h)]

lemma toList_slash (a b : String) : (a ++ "/" ++ b).toList = a.toList ++ '/' :: b.toList := by
  rw [String.toList_append, String.toList_append, append_assoc]
  rfl

lemma exists_of_endsWith (h : path.endsWith "/") : ∃ init, path = init ++ "/" := by
  obtain ⟨cs, hcs⟩ := getLast?_eq_some_iff.mp (endsWith_slash.mp h)
  refine ⟨String.ofList cs, String.toList_inj.mp ?_⟩
  rw [String.toList_append, String.toList_ofList, hcs]
  rfl

/-! ### Joining -/

def lead (path : String) : String :=
  if path.isEmpty || path.endsWith "/" then path else path ++ "/"

lemma join_eq (hq : q.startsWith "/" = false) : join base q = lead base ++ q := by
  unfold join lead
  rw [if_neg (by rw [hq]; exact Bool.false_ne_true)]
  split <;> rfl

lemma lead_empty : lead "" = "" := rfl

lemma lead_slash (path : String) : lead (path ++ "/") = path ++ "/" := by
  have hslash : (path ++ "/").endsWith "/" := by rw [endsWith_append rfl, endsWith_slash]; rfl
  unfold lead
  rw [hslash, Bool.or_true, if_pos rfl]

lemma lead_of_endsWith (h : path.endsWith "/") : lead path = path := by
  obtain ⟨init, rfl⟩ := exists_of_endsWith h
  exact lead_slash init

lemma lead_of_not_endsWith (hempty : path.isEmpty = false) (h : path.endsWith "/" = false) :
    lead path = path ++ "/" := by
  unfold lead
  rw [hempty, h]
  rfl

lemma lead_lead (path : String) : lead (lead path) = lead path := by
  cases hempty : path.isEmpty with
  | true =>
    obtain rfl := String.isEmpty_iff.mp hempty
    rfl
  | false =>
    cases hslash : path.endsWith "/" with
    | true => rw [lead_of_endsWith hslash, lead_of_endsWith hslash]
    | false => rw [lead_of_not_endsWith hempty hslash, lead_slash]

lemma lead_append (h : b.isEmpty = false) : lead (a ++ b) = a ++ lead b := by
  have hempty : (a ++ b).isEmpty = false := by
    simpa [String.isEmpty_eq_false_iff] using fun _ => toList_ne_nil h
  cases hslash : b.endsWith "/" with
  | true => rw [lead_of_endsWith hslash, lead_of_endsWith ((endsWith_append h).trans hslash)]
  | false =>
    rw [lead_of_not_endsWith h hslash,
      lead_of_not_endsWith hempty ((endsWith_append h).trans hslash), String.append_assoc]

lemma startsWith_join (hq : q.startsWith "/" = false) :
    (join base q).startsWith "/" = base.startsWith "/" := by
  rw [join_eq hq]
  cases hempty : base.isEmpty with
  | true =>
    obtain rfl := String.isEmpty_iff.mp hempty
    rw [lead_empty, String.empty_append, hq]
    rfl
  | false =>
    cases hslash : base.endsWith "/" with
    | true => rw [lead_of_endsWith hslash, startsWith_append hempty]
    | false =>
      rw [lead_of_not_endsWith hempty hslash, String.append_assoc, startsWith_append hempty]

lemma join_assoc (hq : q.startsWith "/" = false) : join a (join b q) = join (join a b) q := by
  cases hb : b.startsWith "/" with
  | true =>
    have habsolute (p : String) (h : p.startsWith "/" = true) : join a p = p := if_pos h
    rw [habsolute _ ((startsWith_join hq).trans hb), habsolute b hb]
  | false =>
    rw [join_eq ((startsWith_join hq).trans hb), join_eq hq, join_eq hq, join_eq hb,
      ← String.append_assoc]
    cases hempty : b.isEmpty with
    | true =>
      obtain rfl := String.isEmpty_iff.mp hempty
      rw [lead_empty, String.append_empty, lead_lead]
    | false => rw [lead_append hempty]

/-! ### Parts -/

lemma segments_slash (a b : String) : segments (a ++ "/" ++ b) = segments a ++ segments b := by
  unfold segments Text.split
  rw [toList_slash, Text.splitAt_append_sep, map_append]

lemma segments_of_notMem (h : '/' ∉ name.toList) : segments name = [name] := by
  unfold segments Text.split
  rw [Text.splitAt_of_notMem h, map_singleton, String.ofList_toList]

lemma head?_segments (h : path.startsWith "/") : (segments path).head? = some "" := by
  obtain ⟨cs, hcs⟩ := head?_eq_some_iff.mp (startsWith_slash.mp h)
  unfold segments Text.split
  rw [hcs, Text.splitAt_cons_sep]
  rfl

lemma segments_intercalate (hne : names ≠ []) (h : ∀ name ∈ names, '/' ∉ name.toList) :
    segments (String.intercalate "/" names) = names := by
  induction names with
  | nil => exact absurd rfl hne
  | cons name names ih =>
    obtain ⟨hname, hnames⟩ := forall_mem_cons.mp h
    cases names with
    | nil => rw [String.intercalate_singleton, segments_of_notMem hname]
    | cons =>
      rw [String.intercalate_cons_cons, segments_slash, segments_of_notMem hname,
        ih (cons_ne_nil _ _) hnames, singleton_append]

/-- What is joined to a path adds its parts; an empty part at the end gives way. -/
lemma segments_join (base : String) (hq : q.startsWith "/" = false) :
    ∃ parts, (segments base = parts ∨ segments base = parts ++ [""]) ∧
      segments (join base q) = parts ++ segments q := by
  rw [join_eq hq]
  cases hempty : base.isEmpty with
  | true =>
    obtain rfl := String.isEmpty_iff.mp hempty
    exact ⟨[], .inr rfl, by rw [lead_empty, String.empty_append, nil_append]⟩
  | false =>
    cases hslash : base.endsWith "/" with
    | true =>
      obtain ⟨init, rfl⟩ := exists_of_endsWith hslash
      have hparts := segments_slash init ""
      rw [String.append_empty] at hparts
      exact ⟨segments init, .inr hparts, by rw [lead_slash, segments_slash]⟩
    | false =>
      exact ⟨segments base, .inl rfl, by rw [lead_of_not_endsWith hempty hslash, segments_slash]⟩

/-! ### Endings of names -/

/-- A path ends in the name behind its last slash. -/
lemma splitLast_append (hhead : ∀ c ∈ head.toList.getLast?, c = '/') (hname : '/' ∉ name.toList) :
    splitLast (head ++ name) = (head.toList, name.toList) := by
  have hall : ∀ c ∈ name.toList.reverse, (c != '/') = true := by
    intro c hc
    rw [bne_iff_ne]
    rintro rfl
    exact hname (mem_reverse.mp hc)
  unfold splitLast
  dsimp only
  rw [String.toList_append, reverse_append, dropWhile_append_of_pos hall,
    takeWhile_append_of_pos hall]
  cases hcs : head.toList.reverse with
  | nil => simpa using hcs.symm
  | cons c =>
    have hlast : head.toList.getLast? = some c := by
      rw [getLast?_eq_head?_reverse, hcs, head?_cons]
    obtain rfl := hhead c hlast
    rw [dropWhile_cons_of_neg (by simp), takeWhile_cons_of_neg (by simp),
      append_nil, reverse_reverse, ← hcs, reverse_reverse]

lemma splitLast_of_notMem (hname : '/' ∉ name.toList) : splitLast name = ([], name.toList) := by
  have hempty : ∀ c ∈ "".toList.getLast?, c = '/' := by simp
  have hsplit := splitLast_append hempty hname
  rwa [String.empty_append] at hsplit

lemma splitExtension_append (hhead : ∀ c ∈ head.toList.getLast?, c = '/')
    (hname : '/' ∉ name.toList) :
    (splitExtension (head ++ name)).1 = head ++ (splitExtension name).1 := by
  unfold splitExtension
  rw [splitLast_append hhead hname, splitLast_of_notMem hname]
  dsimp only
  split
  · rw [nil_append, String.ofList_append, String.ofList_toList]
  · rfl

lemma slash_notMem_splitExtension (hname : '/' ∉ name.toList) :
    '/' ∉ (splitExtension name).1.toList := by
  unfold splitExtension
  rw [splitLast_of_notMem hname]
  dsimp only
  split
  · rw [String.toList_ofList, nil_append, mem_reverse]
    intro h
    exact hname (mem_reverse.mp ((dropWhile_sublist _).subset (mem_of_mem_drop h)))
  · exact hname

/-- Names whose last one has another ending. -/
def withEnding (ending : String) (names : List String) : List String :=
  names.dropLast ++ [(splitExtension (names.getLastD "")).1 ++ ending]

/-- A path below a folder gets another ending as its last name does. -/
lemma splitExtension_intercalate (hne : names ≠ []) (h : ∀ name ∈ names, '/' ∉ name.toList)
    (ending : String) : (splitExtension (String.intercalate "/" names)).1 ++ ending =
      String.intercalate "/" (withEnding ending names) := by
  obtain rfl | ⟨init, last, rfl⟩ := eq_nil_or_concat names
  · exact absurd rfl hne
  · rw [concat_eq_append] at h ⊢
    have hlast : '/' ∉ last.toList := h last (by simp)
    rw [withEnding, dropLast_concat, getLastD_concat]
    by_cases hinit : init = []
    · rw [hinit, nil_append, nil_append, String.intercalate_singleton,
        String.intercalate_singleton]
    · rw [String.intercalate_append_of_ne_nil hinit (cons_ne_nil _ _),
        String.intercalate_append_of_ne_nil hinit (cons_ne_nil _ _),
        String.intercalate_singleton, String.intercalate_singleton,
        splitExtension_append (by simp) hlast, String.append_assoc]

end UiScript.Path
