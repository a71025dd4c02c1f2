import UiScript.Proofs.Dom.Static
import UiScript.Proofs.Render.Unfolding
import UiScript.Script.Lower

/-!
# Static markup on both sides

Static markup is the same whether it is built by a script or rendered as text. Both sides escape
texts, each in its own way.
-/

namespace UiScript.Dom

open List

open Render (attributeTexts eval isEvent markupList)
open Script
open Syntax (Grammatical)

/-! ### Static markup among nodes -/

/-- An attribute that is written alone or with a string literal. -/
inductive IsLiteral : Entry Node → String × Option String → Prop
  | bare (name : String) : IsLiteral ⟨name, none⟩ (name, none)
  | string (name : String) (place : Option Place) (value : String) :
      IsLiteral ⟨name, some (.string place value)⟩ (name, some value)

/-- The nodes are static markup, and none of the attributes is an event. -/
inductive Depicts : List Node → Static → Prop
  | nil : Depicts [] .nil
  | text {place : Option Place} {value : String} {ns : List Node} {rest : Static}
      (hrest : Depicts ns rest) : Depicts (.text place value :: ns) (.text value rest)
  | element {place : Option Place} {tag : String} {es : List (Entry Node)} {children : List Node}
      {selfClosing : Bool} {ns : List Node} {attributes : Attributes} {inner rest : Static}
      (hattributes : Forall₂ IsLiteral es attributes.entries)
      (hevents : ∀ e ∈ es, ¬ isEvent e.name)
      (hclosing : selfClosing → children = [])
      (hinner : Depicts children inner) (hrest : Depicts ns rest) :
      Depicts (.element place tag es children selfClosing :: ns)
        (.element tag attributes selfClosing inner rest)

/-! ### Names that can be read -/

lemma isQuotable_of_isHyphenated {name : String} (h : Syntax.isHyphenated name.toList) :
    isQuotable name := by
  have hother : ['\'', '\\', '\n', '\r'].all fun c => !(Token.isIdentifierChar c || c == '-') := by
    decide
  refine all_eq_true.mpr fun c hc => decide_eq_true fun hmem => ?_
  obtain ⟨hchar, hhyphen⟩ : Token.isIdentifierChar c = false ∧ c ≠ '-' := by
    simpa using all_eq_true.mp hother c hmem
  simpa [hchar, hhyphen] using Syntax.char_of_isHyphenated h c hc

variable {es : List (Entry Node)} {ns : List Node} {t : Static}
  {entries : List (String × Option String)} {parent : String}

lemma map_name_of_literals
    (h : Forall₂ IsLiteral es entries) : entries.map Prod.fst = es.map Entry.name := by
  induction h with
  | nil => rfl
  | cons he _ ih => cases he <;> rw [map_cons, map_cons, ih]

/-- The names in markup that was read can stand between quotes. -/
lemma Depicts.quotable_of_read (h : Depicts ns t) (hread : ∀ n ∈ ns, ∃ pos, Grammatical pos n) :
    ∀ name ∈ t.names, isQuotable name := by
  induction h with
  | nil => exact nofun
  | text _ ih => exact ih (forall_mem_cons.mp hread).2
  | element hattributes hevents _ _ _ ihinner ihrest =>
    obtain ⟨⟨pos, hn⟩, hrest⟩ := forall_mem_cons.mp hread
    cases hn with
    | element htag _ hnames _ hchildren =>
      have hattribute : ∀ name ∈ List.map Entry.name _, isQuotable name :=
        forall_mem_map.mpr fun e he => isQuotable_of_isHyphenated
          (Render.isHyphenated_of_not_event (hnames e he).1 (Bool.eq_false_iff.mpr (hevents e he)))
      rw [← map_name_of_literals hattributes, forall_mem_map] at hattribute
      exact Static.forall_names_element.mpr
        ⟨isQuotable_of_isHyphenated (Syntax.isHyphenated_of_isWord htag.1), hattribute,
          ihinner fun n hn => ⟨_, hchildren n hn⟩, ihrest hrest⟩

/-! ### Statements for static markup -/

abbrev ReadAs : List String → List Operation → Prop :=
  Forall₂ fun statement operation => operation? statement = some operation

lemma Document.run_of_readAs {statements : List String} {operations : List Operation}
    (h : ReadAs statements operations) (doc : Document) :
    doc.run statements = doc.applyAll operations := by
  induction h generalizing doc with
  | nil => rfl
  | cons hread _ ih =>
    simp only [run, applyAll, foldlM_cons, hread]
    exact bind_congr fun next => ih next

/-- The action writes statements that stand for the operations of static markup, and counts its
elements. -/
def Writes (m : Gen (List String)) (parent : String) (t : Static) : Prop :=
  ∀ g, ∃ lines, m.run g = .ok (lines, { g with nextElement := g.nextElement + t.elements }) ∧
    ReadAs lines (t.operations parent g.nextElement)

lemma run_bind_of_ok {α β : Type} {m : Gen α} {f : α → Gen β} {g g' : Generator} {a : α}
    (h : m.run g = .ok (a, g')) : (m >>= f).run g = (f a).run g' := by
  rw [StateT.run_bind, h]
  rfl

lemma childLines_cons (parent : String) (n : Lowered) (ns : List Lowered) :
    childLines parent (n :: ns) = do
      let lines ← n.2.child parent
      return lines ++ (← childLines parent ns) := by
  simp [childLines, Script.inOrder]

lemma attributeCode_reads {var : String} (hvar : isVariable var) {e : Entry Node}
    {a : String × Option String} (h : IsLiteral e a) (hevent : ¬ isEvent e.name)
    (hname : isQuotable a.1) :
    ∃ code, attributeCode var e.name (lowerOption e.value) = pure code ∧
      operation? code = some (.setAttribute var a.1 (a.2.getD "")) := by
  have hevent : e.name.startsWith "@" = false := by simpa [isEvent] using hevent
  cases h with
  | bare =>
    refine ⟨_, ?_, operation?_setBare hvar hname⟩
    simp [attributeCode, lowerOptionWith, hevent]
  | string name place value =>
    by_cases hclass : name = "class"
    · subst hclass
      refine ⟨_, ?_, operation?_setClass hvar value⟩
      simp [attributeCode, lowerOptionWith, lowerWith, Forms.ofExpr, hevent]
    · refine ⟨_, ?_, operation?_setLiteral hvar hname value⟩
      simp [attributeCode, lowerOptionWith, lowerWith, Forms.ofExpr, hevent, hclass, isObject]

lemma attributes_read {var : String} (hvar : isVariable var) (h : Forall₂ IsLiteral es entries)
    (hevents : ∀ e ∈ es, ¬ isEvent e.name) (hnames : ∀ a ∈ entries, isQuotable a.1) :
    ∃ codes, Script.inOrder ((lowerEntries es).map fun (name, value) =>
        attributeCode var name value) = pure codes ∧
      ReadAs codes (entries.map fun e => .setAttribute var e.1 (e.2.getD "")) := by
  induction h with
  | nil => exact ⟨[], rfl, .nil⟩
  | @cons e a es entries he _ ih =>
    obtain ⟨hevent, hevents⟩ := forall_mem_cons.mp hevents
    obtain ⟨hname, hnames⟩ := forall_mem_cons.mp hnames
    obtain ⟨code, hcode, hread⟩ := attributeCode_reads hvar he hevent hname
    obtain ⟨codes, hcodes, hreads⟩ := ih hevents hnames
    refine ⟨code :: codes, ?_, .cons hread hreads⟩
    simp only [lowerEntries, lowerEntriesWith, map_cons, Script.inOrder, hcode, hcodes, pure_bind]

lemma Writes.append {m m' : Gen (List String)} {s : Static}
    (h : Writes m parent s) (h' : Writes m' parent t) :
    Writes (do return (← m) ++ (← m')) parent (s.append t) := by
  intro g
  obtain ⟨lines, hrun, hread⟩ := h g
  obtain ⟨lines', hrun', hread'⟩ := h' { g with nextElement := g.nextElement + s.elements }
  refine ⟨lines ++ lines', ?_, ?_⟩
  · rw [run_bind_of_ok hrun, run_bind_of_ok hrun', Static.elements_append, ← Nat.add_assoc]
    rfl
  · rw [Static.operations_append]
    exact rel_append hread hread'

/-- The statements of an element stand for its operations if those of its children do. -/
lemma elementLines_writes {tag : String} {children : List Node} {attributes : Attributes}
    {inner : Static} (selfClosing : Bool) (hparent : isVariable parent)
    (hattributes : Forall₂ IsLiteral es attributes.entries)
    (hevents : ∀ e ∈ es, ¬ isEvent e.name) (htag : isQuotable tag)
    (hnames : ∀ a ∈ attributes.entries, isQuotable a.1)
    (hinner : ∀ var, isVariable var → Writes (childLines var (lowerList children)) var inner) :
    Writes (elementLines tag (lowerEntries es) (lowerList children) parent) parent
      (.element tag attributes selfClosing inner .nil) := by
  intro g
  have hvar := isVariable_elementName g.nextElement
  obtain ⟨codes, hcodes, hread⟩ := attributes_read hvar hattributes hevents hnames
  obtain ⟨lines, hrun, hread'⟩ := hinner _ hvar { g with nextElement := g.nextElement + 1 }
  have hnew : newElement.run g =
      .ok (elementName g.nextElement, { g with nextElement := g.nextElement + 1 }) := rfl
  have hcount : g.nextElement + 1 + inner.elements =
      g.nextElement + (Static.element tag attributes selfClosing inner .nil).elements := by
    simp [Static.elements, Nat.add_assoc]
  have hvalues : ReadAs codes (attributes.values.map fun e =>
      .setAttribute (elementName g.nextElement) e.1 e.2) := by
    simpa [Attributes.values, Function.comp_def] using hread
  refine ⟨_, ?_, .cons (operation?_create hvar htag) (rel_append hvalues
    (rel_append hread' (.cons (operation?_append hparent hvar) .nil)))⟩
  rw [elementLines, run_bind_of_ok hnew, hcodes, pure_bind, run_bind_of_ok hrun, hcount]
  simp only [append_assoc]
  rfl

lemma Depicts.writes (h : Depicts ns t) (hnames : ∀ name ∈ t.names, isQuotable name)
    (hparent : isVariable parent) : Writes (childLines parent (lowerList ns)) parent t := by
  induction h generalizing parent with
  | nil => exact fun g => ⟨[], rfl, .nil⟩
  | @text place value ns rest _ ih =>
    have htext : Writes ((lower (.text place value)).child parent) parent (.text value .nil) :=
      fun _ => ⟨_, rfl, .cons (operation?_appendText hparent value) .nil⟩
    rw [lowerList, lowerListWith, childLines_cons]
    exact htext.append (ih hnames hparent)
  | @element place tag es children selfClosing ns attributes inner rest hattributes hevents _ _ _
      ihinner ihrest =>
    obtain ⟨htag, hattribute, hinner, hrest⟩ := Static.forall_names_element.mp hnames
    have helement := elementLines_writes selfClosing hparent hattributes hevents htag hattribute
      fun _ => ihinner hinner
    rw [lowerList, lowerListWith, childLines_cons, lowerWith]
    exact helement.append (ihrest hrest hparent)

/-! ### The text of static markup -/

/-- The characters that markup gives a meaning to, with the references that stand for them. -/
def references : List (Char × String) :=
  [('&', "&amp;"), ('<', "&lt;"), ('>', "&gt;"), ('"', "&quot;"), ('\'', "&#x27;")]

/-- A text between tags or between quotes. -/
def escape (s : String) : String :=
  String.join (s.toList.map fun c => (references.lookup c).getD c.toString)

/-- An attribute inside a tag. -/
def attributeHtml : String × Option String → String
  | (name, none) => name
  | (name, some value) => name ++ "=\"" ++ escape value ++ "\""

/-- An element around some text. -/
def elementHtml (tag : String) (attributes : Attributes) (selfClosing : Bool) (inner : String) :
    String :=
  let head := "<" ++ tag ++ String.join (attributes.entries.map fun e => " " ++ attributeHtml e)
  if selfClosing then head ++ " />" else head ++ ">" ++ inner ++ "</" ++ tag ++ ">"

/-- The text of static markup. -/
def Static.html : Static → String
  | .nil => ""
  | .text value rest => escape value ++ rest.html
  | .element tag attributes selfClosing inner rest =>
    elementHtml tag attributes selfClosing inner.html ++ rest.html

lemma escapedChar_eq (c : Char) :
    String.ofList (Text.escapedChar c) = (references.lookup c).getD c.toString := by
  unfold Text.escapedChar
  split
  case h_6 h1 h2 h3 h4 h5 =>
    have hnone : references.lookup c = none := by
      simpa [references, lookup_eq_none_iff] using ⟨h1, h2, h3, h4, h5⟩
    rw [hnone]
    rfl
  all_goals rfl

lemma escaped_eq_escape (s : String) : Text.escaped s = escape s := by
  unfold Text.escaped escape
  induction s.toList with
  | nil => rfl
  | cons c cs ih =>
    rw [flatMap_cons, String.ofList_append, ih, escapedChar_eq, map_cons,
      String.join_cons]

lemma ok_bind {ε α β : Type} (a : α) (f : α → Except ε β) : (Except.ok a >>= f) = f a := rfl

lemma attributeTexts_eq
    (h : Forall₂ IsLiteral es entries) (hevents : ∀ e ∈ es, ¬ isEvent e.name)
    (scope : Dict Value) : attributeTexts scope es = .ok (entries.map attributeHtml) := by
  induction h with
  | nil => rfl
  | @cons e a es entries he _ ih =>
    obtain ⟨hevent, hevents⟩ := forall_mem_cons.mp hevents
    have ih := ih hevents
    cases he with
    | bare =>
      rw [attributeTexts, if_neg hevent, ih]
      rfl
    | string name place value =>
      have htext : Render.attributeText name (.str value) =
          .ok (attributeHtml (name, some value)) := by
        rw [attributeHtml, ← escaped_eq_escape]
        rfl
      have hvalue : eval (.string place value) scope = .ok (.str value) := by
        rw [eval, Node.evaluate]
        rfl
      rw [attributeTexts, if_neg hevent, ih, hvalue, ok_bind, htext]
      rfl

lemma markup_element {use : String → Dict Value → Except RenderError String} {scope : Dict Value}
    {place : Option Place} {tag inner : String} {children : List Node} {attributes : Attributes}
    (selfClosing : Bool) (hattributes : Forall₂ IsLiteral es attributes.entries)
    (hevents : ∀ e ∈ es, ¬ isEvent e.name)
    (hinner : markupList use children scope = .ok inner) :
    Render.markup use (.element place tag es children selfClosing) scope =
      .ok (elementHtml tag attributes selfClosing inner) := by
  have htexts : (attributes.entries.map attributeHtml).map (" " ++ ·) =
      attributes.entries.map fun e => " " ++ attributeHtml e := map_map
  rw [Render.markup, attributeTexts_eq hattributes hevents, hinner, elementHtml]
  simp only [liftM, monadLift, ok_bind, htexts]
  cases selfClosing <;> rfl

lemma Depicts.markupList (h : Depicts ns t) (use : String → Dict Value → Except RenderError String)
    (scope : Dict Value) : markupList use ns scope = .ok t.html := by
  induction h with
  | nil => rfl
  | text _ ih =>
    rw [Render.markupList, Render.markup, escaped_eq_escape, ih]
    rfl
  | @element place tag es children selfClosing _ _ _ _ hattributes hevents _ _ _ ihinner ihrest =>
    rw [Render.markupList, markup_element selfClosing hattributes hevents ihinner, ihrest]
    rfl

/-! ### Both sides -/

lemma childLines_single (parent : String) (n : Lowered) :
    childLines parent [n] = n.2.child parent := by
  simp [childLines, Script.inOrder]

lemma markupList_single (use : String → Dict Value → Except RenderError String) (n : Node)
    (scope : Dict Value) : markupList use [n] scope = Render.markup use n scope := by
  simp [markupList]

lemma Depicts.single {n : Node} (h : Depicts [n] t) {cells : List Cell} {low p : Nat}
    {is : List Nat} (hshows : Shows cells low p is t) : ∃ i, is = [i] := by
  cases h with
  | text hrest =>
    cases hrest
    cases hshows with
    | text _ _ hrest =>
      cases hrest
      exact ⟨_, rfl⟩
  | element _ _ _ _ hrest =>
    cases hrest
    cases hshows with
    | element _ _ _ hrest =>
      cases hrest
      exact ⟨_, rfl⟩

/-- Static markup is the same on both sides. The statements that are generated for a node can be
run, and they put one subtree of new nodes, which shows the markup, at the end of the node of the
variable `parent`. The node is rendered as the text of the same markup, in every scope. -/
theorem static_built_and_rendered {n : Node} {t : Static} (hn : Depicts [n] t)
    (hnames : (∃ pos, Grammatical pos n) ∨ ∀ name ∈ t.names, isQuotable name)
    {doc : Document} {parent : String} {p : Nat} (hparent : isVariable parent) (g : Generator)
    (hready : Ready doc parent p g.nextElement) :
    (∃ lines doc' i,
      ((lower n).child parent).run g =
        .ok (lines, { g with nextElement := g.nextElement + t.elements }) ∧
      doc.run lines = some doc' ∧ Built doc p g.nextElement t [i] doc') ∧
    ∀ (use : String → Dict Value → Except RenderError String) (scope : Dict Value),
      Render.markup use n scope = .ok t.html := by
  have hquotable : ∀ name ∈ t.names, isQuotable name := by
    rcases hnames with hread | hnames
    · exact hn.quotable_of_read (List.forall_mem_singleton.mpr hread)
    · exact hnames
  constructor
  · obtain ⟨lines, hrun, hread⟩ := hn.writes hquotable hparent g
    obtain ⟨is, doc', happly, hbuilt⟩ := t.buildable doc parent p g.nextElement hready
    obtain ⟨i, rfl⟩ := hn.single hbuilt.shows
    refine ⟨lines, doc', i, ?_, ?_, hbuilt⟩
    · rwa [lowerList, lowerListWith, lowerListWith, childLines_single] at hrun
    · rw [Document.run_of_readAs hread, happly]
  · intro use scope
    rw [← markupList_single, hn.markupList]

/-- An element with two attributes around a text, an element that closes itself, and another one.
The texts have characters that one side or the other escapes. -/
theorem static_built_and_rendered_nested :
    let n : Node := .element none "section"
      [⟨"class", some (.string none "a</b>")⟩, ⟨"hidden", none⟩]
      [.text none "x\n<&", .element none "br" [] [] true,
        .element none "p" [⟨"title", some (.string none "say \"\\")⟩] [.text none "\x01"] false]
      false
    let t : Static := .element "section" ⟨[("class", some "a</b>"), ("hidden", none)], by decide⟩
      false
      (.text "x\n<&" (.element "br" ⟨[], by decide⟩ true .nil
        (.element "p" ⟨[("title", some "say \"\\")], by decide⟩ false (.text "\x01" .nil) .nil)))
      .nil
    let doc : Document := { cells := [{ content := .fragment }], bindings := [("__fragment", 0)] }
    let g : Generator := { title := "", nextElement := 7 }
    let use (_ : String) (_ : Dict Value) : Except RenderError String := .ok ""
    Depicts [n] t ∧ Ready doc "__fragment" 0 7 ∧
      (∃ lines doc' i,
        ((lower n).child "__fragment").run g = .ok (lines, { g with nextElement := 10 }) ∧
        doc.run lines = some doc' ∧ Built doc 0 7 t [i] doc') ∧
      Render.markup use n [] = .ok ("<section class=\"a&lt;/b&gt;\" hidden>x\n&lt;&amp;<br />" ++
        "<p title=\"say &quot;\\\">\x01</p></section>") := by
  intro n t doc g use
  have hn : Depicts [n] t := by
    refine .element (.cons (.string ..) (.cons (.bare _) .nil)) ?_ nofun
      (.text (.element .nil nofun (fun _ => rfl) .nil
        (.element (.cons (.string ..) .nil) ?_ nofun (.text .nil) .nil))) .nil
    · simp [isEvent, String.startsWith_string_iff]
    · simp [isEvent, String.startsWith_string_iff]
  have hready : Ready doc "__fragment" 0 7 :=
    { closed := by
        intro i q hq
        cases i <;> cases hq
      lookup := rfl
      holds := ⟨_, rfl, rfl⟩
      fresh := by
        intro l _
        refine (Dict.get?_cons ..).trans (if_neg fun heq => ?_)
        have hlist := congrArg String.toList heq
        rw [elementName_toList] at hlist
        simp at hlist }
  obtain ⟨hbuilt, hrendered⟩ := static_built_and_rendered hn (.inr (by decide)) (by decide) g hready
  exact ⟨hn, hready, hbuilt, hrendered use []⟩

end UiScript.Dom
