import Mathlib.Data.List.Forall2
import UiScript.Proofs.Syntax.Trees
import UiScript.Render

/-!
# The grammar of markup

Markup consists of texts and of tags, where each tag that is opened is closed. The tags and the
names of attributes are those of given elements. All else is escaped, so that it can neither open
nor close a tag or an attribute.
-/

namespace UiScript.Render

open List

open Syntax (isHyphenated startsWithin)

/-! ### Escaped text -/

/-- The entities of the five characters that have a meaning in markup. -/
def entities : List String := ["&amp;", "&lt;", "&gt;", "&quot;", "&#x27;"]

/-- Text in markup: the five characters do not occur, but for the mark that starts an entity. -/
inductive IsText : List Char → Prop
  | nil : IsText []
  | char {c : Char} {cs : List Char} (hc : c ∉ ['<', '>', '"', '\'', '&']) (hcs : IsText cs) :
      IsText (c :: cs)
  | entity {e : String} {cs : List Char} (he : e ∈ entities) (hcs : IsText cs) :
      IsText (e.toList ++ cs)

variable {cs : List Char} {nodes : List Node}

lemma IsText.escapedChar_append (c : Char) (hcs : IsText cs) :
    IsText (Text.escapedChar c ++ cs) := by
  unfold Text.escapedChar
  split
  · exact .entity (by decide) hcs
  · exact .entity (by decide) hcs
  · exact .entity (by decide) hcs
  · exact .entity (by decide) hcs
  · exact .entity (by decide) hcs
  next h1 h2 h3 h4 h5 => exact .char (by simp_all) hcs

lemma isText_escaped (s : String) : IsText (Text.escaped s).toList := by
  unfold Text.escaped
  rw [String.toList_ofList]
  induction s.toList with
  | nil => exact .nil
  | cons c cs ih => exact ih.escapedChar_append c

/-! ### The grammar of markup -/

def shown (attributes : List (Entry Node)) : List (Entry Node) :=
  attributes.filter fun e => !isEvent e.name

/-- An attribute of an element: its name alone, or with a text if it has a value. -/
def IsAttribute (e : Entry Node) (text : String) : Prop :=
  match e.value with
  | none => text = e.name
  | some _ => ∃ value, IsText value.toList ∧ text = e.name ++ "=\"" ++ value ++ "\""

/-- A tag of an element among some nodes, with texts of its attributes. -/
structure IsTag (nodes : List Node) (selfClosing : Bool) (tag : String) (texts : List String) :
    Prop where
  isWord : Token.isWord tag
  lowerCase : startsWithin 'a' 'z' tag
  element : ∃ place attributes children,
    .element place tag attributes children selfClosing ∈ nodes ∧
      (∀ e ∈ shown attributes, isHyphenated e.name.toList) ∧
      Forall₂ IsAttribute (shown attributes) texts

def tagStart (tag : String) (texts : List String) : String :=
  "<" ++ tag ++ String.join (texts.map (" " ++ ·))

/-- Texts and tags of elements among some nodes, where each tag that is opened is closed. -/
inductive Markup (nodes : List Node) : String → Prop
  | text {s : String} (hs : IsText s.toList) : Markup nodes s
  | selfClosing {tag : String} {texts : List String} (htag : IsTag nodes true tag texts) :
      Markup nodes (tagStart tag texts ++ " />")
  | element {tag inner : String} {texts : List String} (htag : IsTag nodes false tag texts)
      (hinner : Markup nodes inner) :
      Markup nodes (tagStart tag texts ++ ">" ++ inner ++ "</" ++ tag ++ ">")
  | append {s t : String} (hs : Markup nodes s) (ht : Markup nodes t) : Markup nodes (s ++ t)

lemma Markup.empty : Markup nodes "" := .text .nil

/-! ### Where tags can start -/

lemma IsText.notMem_lt (h : IsText cs) : '<' ∉ cs := by
  induction h with
  | nil => exact not_mem_nil
  | char hc _ ih =>
    rintro (_ | ⟨_, hmem⟩)
    · exact hc (by decide)
    · exact ih hmem
  | @entity e cs he _ ih =>
    have hentity : ∀ e ∈ entities, '<' ∉ e.toList := by decide
    rw [mem_append]
    rintro (hmem | hmem)
    · exact hentity e he hmem
    · exact ih hmem

lemma notMem_lt_of_isWord {s : String} (h : Token.isWord s) : '<' ∉ s.toList := by
  obtain ⟨c, cs, hs, hc, hcs⟩ := Token.isWord_iff h
  rw [hs]
  rintro (_ | ⟨_, hmem⟩)
  · exact absurd hc (by decide)
  · exact absurd (all_eq_true.mp hcs _ hmem) (by decide)

lemma IsAttribute.notMem_lt {e : Entry Node} {text : String} (h : IsAttribute e text)
    (hname : isHyphenated e.name.toList) : '<' ∉ text.toList := by
  have hname := Syntax.notMem_of_isHyphenated (c := '<') (by decide) hname
  obtain ⟨name, value⟩ := e
  cases value with
  | none =>
    obtain rfl : text = name := h
    exact hname
  | some =>
    obtain ⟨value, hvalue, rfl⟩ := h
    have hvalue := hvalue.notMem_lt
    have hquote : '<' ∉ "=\"".toList ∧ '<' ∉ "\"".toList := by decide
    simp only [String.toList_append, mem_append]
    rintro (((hmem | hmem) | hmem) | hmem)
    · exact hname hmem
    · exact hquote.1 hmem
    · exact hvalue hmem
    · exact hquote.2 hmem

lemma notMem_lt_join {es : List (Entry Node)} {texts : List String}
    (h : Forall₂ IsAttribute es texts) (hnames : ∀ e ∈ es, isHyphenated e.name.toList) :
    '<' ∉ (String.join (texts.map (" " ++ ·))).toList := by
  induction h with
  | nil => decide
  | cons htext _ ih =>
    obtain ⟨hname, hnames⟩ := forall_mem_cons.mp hnames
    have hblank : '<' ∉ " ".toList := by decide
    simp only [map_cons, String.join_cons, String.toList_append, mem_append]
    rintro ((hmem | hmem) | hmem)
    · exact hblank hmem
    · exact htext.notMem_lt hname hmem
    · exact ih hnames hmem

/-- Every mark that can start a tag does start one, with the name of an element. -/
def TagsOf (nodes : List Node) (cs : List Char) : Prop :=
  ∀ before after, cs = before ++ '<' :: after →
    ∃ place tag attributes children selfClosing,
      .element place tag attributes children selfClosing ∈ nodes ∧
        (tag.toList <+: after ∨ '/' :: tag.toList <+: after)

lemma TagsOf.append {ds : List Char} (hc : TagsOf nodes cs)
    (hd : TagsOf nodes ds) : TagsOf nodes (cs ++ ds) := by
  intro before after heq
  rcases append_eq_append_iff.mp heq with ⟨more, rfl, hrest⟩ | ⟨more, hcs, hrest⟩
  · exact hd more after hrest
  · cases more with
    | nil => exact hd [] after hrest.symm
    | cons c more =>
      obtain ⟨rfl, hafter⟩ := List.cons.inj hrest
      obtain ⟨place, tag, attributes, children, selfClosing, hnode, htag⟩ := hc before more hcs
      refine ⟨place, tag, attributes, children, selfClosing, hnode, ?_⟩
      rw [hafter]
      exact htag.imp (·.trans (prefix_append ..)) (·.trans (prefix_append ..))

lemma TagsOf.of_notMem (h : '<' ∉ cs) : TagsOf nodes cs := by
  rintro before after rfl
  exact absurd (mem_append_right _ mem_cons_self) h

section Tags

variable {nodes : List Node} {selfClosing : Bool} {tag : String} {texts : List String}

/-- One mark at the start, before the name of an element or the bar that closes it. -/
lemma IsTag.tagsOf_cons (h : IsTag nodes selfClosing tag texts) (hcs : '<' ∉ cs)
    (hname : tag.toList <+: cs ∨ '/' :: tag.toList <+: cs) : TagsOf nodes ('<' :: cs) := by
  intro before after heq
  obtain ⟨place, attributes, children, hnode, -⟩ := h.element
  cases before with
  | nil =>
    obtain ⟨-, rfl⟩ := List.cons.inj heq
    exact ⟨place, tag, attributes, children, selfClosing, hnode, hname⟩
  | cons =>
    obtain ⟨-, rfl⟩ := List.cons.inj heq
    exact absurd (mem_append_right _ mem_cons_self) hcs

lemma IsTag.tagsOf_start (h : IsTag nodes selfClosing tag texts) :
    TagsOf nodes (tagStart tag texts).toList := by
  obtain ⟨place, attributes, children, -, hnames, htexts⟩ := h.element
  have hjoin := notMem_lt_join htexts hnames
  have hlist : (tagStart tag texts).toList =
      '<' :: (tag.toList ++ (String.join (texts.map (" " ++ ·))).toList) := by
    rw [tagStart, String.toList_append, String.toList_append]
    rfl
  rw [hlist]
  refine h.tagsOf_cons ?_ (.inl (prefix_append ..))
  rw [mem_append]
  exact not_or.mpr ⟨notMem_lt_of_isWord h.isWord, hjoin⟩

lemma IsTag.tagsOf_close (h : IsTag nodes selfClosing tag texts) :
    TagsOf nodes ("</" ++ tag).toList := by
  rw [String.toList_append]
  change TagsOf nodes ('<' :: '/' :: tag.toList)
  refine h.tagsOf_cons ?_ (.inr prefix_rfl)
  rw [mem_cons]
  exact not_or.mpr ⟨by decide, notMem_lt_of_isWord h.isWord⟩

end Tags

lemma Markup.tagsOf {s : String} (h : Markup nodes s) : TagsOf nodes s.toList := by
  induction h with
  | text hs => exact .of_notMem hs.notMem_lt
  | selfClosing htag =>
    rw [String.toList_append]
    exact htag.tagsOf_start.append (.of_notMem (by decide))
  | @element tag inner texts htag _ ih =>
    have hend : TagsOf nodes ">".toList := .of_notMem (by decide)
    have hlist : (tagStart tag texts ++ ">" ++ inner ++ "</" ++ tag ++ ">").toList =
        (tagStart tag texts).toList ++ ">".toList ++ inner.toList ++ ("</" ++ tag).toList ++
          ">".toList := by
      simp only [String.toList_append, append_assoc]
    rw [hlist]
    exact (((htag.tagsOf_start.append hend).append ih).append htag.tagsOf_close).append hend
  | append _ _ ihs iht =>
    rw [String.toList_append]
    exact ihs.append iht

end UiScript.Render
