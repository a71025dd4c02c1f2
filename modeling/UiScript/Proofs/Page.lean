import UiScript.Page
import UiScript.Proofs.Script.Total

/-!
# Pages of parsed programs

Every program that can be parsed has a page. Its script does not use the fallback of the generator
and cannot be left before the page itself closes it.
-/

namespace UiScript.Script

open List

open Syntax (Grammatical)

/-! ### The code of a program -/

lemma isWord_of_declaredComponent {n : Node} (h : Grammatical .statement n) :
    ∀ name ∈ declaredComponent? n, Token.isWord name := by
  cases h with
  | component hname =>
    rintro _ ⟨⟩
    exact hname.1
  | @exports _ _ declaration _ hdeclaration =>
    intro name hname
    match declaration, hname with
    | some (.component ..), hname =>
      cases hname
      cases hdeclaration _ rfl with
      | component hname => exact hname.1
  | _ => exact nofun

lemma free_publishingCode {k : Mark} {names : List String} (h : FreeAll k names) :
    FreeAll k (publishingCode names) := by
  unfold publishingCode
  split_ifs
  · exact forall_mem_nil _
  refine forall_mem_singleton.mpr (Free.unlines (forall_mem_cons.mpr
    ⟨.of_isFree (by decide +kernel), forall_mem_map.mpr fun name hname => ?_⟩))
  simp (disch := decide) [String.append_assoc, publishedObject, h name hname]

/-- The page that is made of the code of the statements. -/
def pageOf (codes : List String) (g : Generator) : Page :=
  let script := banner ++
    String.intercalate "\n\n" (codes.filter (!·.isEmpty) ++ publishingCode g.published)
  let css := String.intercalate "\n\n" g.css
  { html := document g.title g.components script css, script, css }

/-- The statements are written one after the other, and then the page. -/
lemma pageWith_run (unknown : Node → Gen String) (program : Program) (title : String) (d : ℕ) :
    (pageWith unknown program).run { title, nextElement := d } =
      ((inOrder ((lowerListWith unknown program.body).map (·.2.stmt))).run
        { title, components := program.body.filterMap declaredComponent?, nextElement := d } >>=
          fun r => Except.ok (pageOf r.1 r.2, { r.2 with remarks := r.2.remarks ++ [
            s!"generated {r.2.components.length} components, {r.2.css.length} style rules " ++
              s!"for {program.file}"] })) :=
  rfl

lemma toPageWith_eq (unknown : Node → Gen String) (program : Program) (title : String) :
    program.toPageWith unknown title =
      (fun r => pageOf r.1 r.2) <$>
        (inOrder ((lowerListWith unknown program.body).map (·.2.stmt))).run
          { title, components := program.body.filterMap declaredComponent? } := by
  rw [Program.toPageWith, pageWith_run]
  generalize (inOrder _).run _ = r
  cases r <;> rfl

variable {program : Program}

/-- All fallbacks give one page, whose script is free of a mark. -/
lemma toPageWith_of_drawn {k : Mark} {R : String → Prop} {L : Token → Prop}
    (hL : ∀ t, L t → NameFree k t.value) (h : ∀ n ∈ program.body, Syntax.Drawn L .statement n)
    (hpermits : ∀ n ∈ program.body, Permits k R n) (title : String) :
    ∃ page, (∀ u, program.toPageWith u title = .ok page) ∧ Free k page.script ∧
      page.html = document title (program.body.filterMap declaredComponent?) page.script page.css ∧
      ∃ rules, (∀ rule ∈ rules, R rule) ∧ page.css = String.intercalate "\n\n" rules := by
  have hcodes := statements_fit fun n hn => fits_of_drawn hL (h n hn) (hpermits n hn)
  have hsound : Generator.Sound k R
      { title, components := program.body.filterMap declaredComponent? } :=
    ⟨forall_mem_nil _, fun _ => rfl, forall_mem_nil _⟩
  obtain ⟨_, g, hrun, ⟨codes, hfree, rfl⟩, hleads⟩ := hcodes hsound
  refine ⟨pageOf codes g, fun u => ?_, ?_, ?_, g.css, (hleads.sound hsound).css, rfl⟩
  · rw [toPageWith_eq, hrun]
    rfl
  · have hbanner : isOpening banner := by decide
    refine (Free.opening_append hbanner).mpr (.intercalate (by decide) ?_)
    exact forall_mem_append.mpr ⟨fun s hs => hfree s (mem_of_mem_filter hs),
      free_publishingCode (hleads.sound hsound).published⟩
  · rw [pageOf, hleads.title, hleads.components]

/-- All fallbacks give one page, whose script closes no markup. -/
lemma toPageWith_of_grammatical
    (h : ∀ n ∈ program.body, Grammatical .statement n) (title : String) :
    ∃ page, (∀ u, program.toPageWith u title = .ok page) ∧ Free .closing page.script ∧
      page.html =
        document title (program.body.filterMap declaredComponent?) page.script page.css := by
  obtain ⟨page, hpage, hscript, hhtml, -⟩ := toPageWith_of_drawn (R := fun _ => True)
    (fun _ _ hk => absurd rfl hk) h (fun n _ => permits_closing fun m _ => ruleFits_true m) title
  exact ⟨page, hpage, hscript, hhtml⟩

lemma toPage_of_grammatical (h : ∀ n ∈ program.body, Grammatical .statement n) (title : String) :
    ∃ page, program.toPage title = .ok page := by
  obtain ⟨page, hpage, -⟩ := toPageWith_of_grammatical h title
  exact ⟨page, hpage _⟩

/-! ### The script inside a page -/

/-- What stands between the tags of a script has no closing mark. -/
lemma free_scriptBody {components : List String} {script : String}
    (hcomponents : ∀ name ∈ components, Token.isWord name) (hscript : Free .closing script) :
    Free .closing (scriptBody components script) := by
  unfold scriptBody
  dsimp only
  rw [String.append_assoc, Free.opening_append (by decide), Free.append_closing (by decide)]
  refine Free.unlines ?_
  simp only [FreeAll, forall_mem_cons]
  refine ⟨hscript, by decide, by decide, ?_, forall_mem_nil _⟩
  cases components with
  | nil => decide
  | cons first =>
    have hfirst : Free .closing first :=
      .of_word (hcomponents first mem_cons_self) fun hk => absurd rfl hk
    simp (disch := decide) [String.append_assoc, hfirst]

lemma getLast?_scriptBody (components : List String) (script : String) :
    (scriptBody components script).toList.getLast? = some ' ' := by
  unfold scriptBody
  dsimp only
  rw [String.toList_append, getLast?_append_of_ne_nil _ (by decide)]
  rfl

lemma closing_at_start {before after : List Char}
    (h : ("</script>" ++ documentTail).toList = before ++ "</script".toList ++ after) :
    before = [] := by
  have hlater : ∀ k < 25, "</script".toList <+: ("</script>" ++ documentTail).toList.drop k →
      k = 0 := by decide
  have hlen : before.length < 25 := by
    have := congrArg List.length h
    simp only [length_append] at this
    have hwhole : ("</script>" ++ documentTail).toList.length = 25 := by decide
    have hmark : "</script".toList.length = 8 := by decide
    omega
  refine eq_nil_of_length_eq_zero (hlater _ hlen ⟨after, ?_⟩)
  rw [h, append_assoc, drop_left]

/-- A text without a closing mark, nor half of one at its end, lies before any closing mark. -/
lemma prefix_of_closing {inside rest before after : List Char} (h : ¬ ['<', '/'] <:+: inside)
    (hlast : inside.getLast? ≠ some '<') (heq : inside ++ rest = before ++ '<' :: '/' :: after) :
    inside <+: before := by
  rcases append_eq_append_iff.mp heq with ⟨more, hbefore, -⟩ | ⟨more, hinside, hmark⟩
  · exact ⟨more, hbefore.symm⟩
  · -- otherwise the mark would start inside, or half of it would be at the end
    match more, hmark with
    | [], _ => rw [hinside, append_nil]
    | [c], hmark =>
      obtain ⟨hc, -⟩ := List.cons.inj hmark
      rw [hinside, ← hc, getLast?_concat] at hlast
      exact absurd rfl hlast
    | c :: d :: rest, hmark =>
      obtain ⟨hc, hmark⟩ := List.cons.inj hmark
      obtain ⟨hd, -⟩ := List.cons.inj hmark
      refine absurd ⟨before, rest, ?_⟩ h
      rw [hinside, ← hc, ← hd, append_assoc]
      rfl

/-- A text before the closing tag of a script is left at that tag only. -/
lemma eq_of_closing {inside before after : String} (h : Free .closing inside)
    (hlast : inside.toList.getLast? ≠ some '<')
    (heq : inside ++ "</script>" ++ documentTail = before ++ "</script" ++ after) :
    before = inside := by
  have hlists : inside.toList ++ ("</script>" ++ documentTail).toList =
      before.toList ++ ("</script".toList ++ after.toList) := by
    simpa only [String.append_assoc, String.toList_append] using congrArg String.toList heq
  obtain ⟨more, hbefore⟩ := prefix_of_closing h hlast hlists
  rw [← hbefore, append_assoc, append_cancel_left_eq, ← append_assoc] at hlists
  rw [closing_at_start hlists, append_nil] at hbefore
  exact (String.toList_inj.mp hbefore).symm

end UiScript.Script

namespace UiScript.Program

open Syntax (Grammatical WellFormed isChildOnly)

lemma exists_parse {source file : String} (h : (Program.parse source file).toOption.isSome) :
    ∃ program, Program.parse source file = .ok program := by
  cases hparse : Program.parse source file with
  | error =>
    rw [hparse] at h
    cases h
  | ok program => exact ⟨program, rfl⟩

/-- Every parsed program is a tree that can be read, down to each node, and has a page. The page is
the same whatever the fallback of the generator is, so the fallback is never used. -/
theorem toPage_of_parse {source file : String} {program : Program}
    (h : Program.parse source file = .ok program) :
    (∀ n ∈ program.body, Grammatical .statement n) ∧
    (∀ n ∈ Node.outlineList program.body, WellFormed n ∧
      (isChildOnly n → ∃ parent ∈ Node.outlineList program.body, n ∈ parent.markupChildren)) ∧
    ∀ title, ∃ page, program.toPage title = .ok page ∧
      ∀ unknown, program.toPageWith unknown title = .ok page := by
  have hread := Syntax.grammatical_of_parse h
  refine ⟨hread, Syntax.wellFormed_of_mem_outline hread, fun title => ?_⟩
  obtain ⟨page, hpage, -⟩ := Script.toPageWith_of_grammatical hread title
  exact ⟨page, hpage _, hpage⟩

/-- A component with markup in each kind of place. -/
theorem toPage_of_parse_component :
    let source :=
      "component A(b = <i/>) \x7b <p id=\x7b[b]\x7d>c \x7bb\x7d <D e=\x7bb - 1\x7d/></p> \x7d"
    ∃ program, Program.parse source "main" = .ok program ∧
      (∀ n ∈ program.body, Grammatical .statement n) ∧
      ∃ page, program.toPage "c" = .ok page ∧
        ∀ unknown, program.toPageWith unknown "c" = .ok page := by
  intro source
  have hparses : (Program.parse source "main").toOption.isSome := by decide +kernel
  obtain ⟨program, hparse⟩ := exists_parse hparses
  obtain ⟨hread, -, hpage⟩ := toPage_of_parse hparse
  exact ⟨program, hparse, hread, hpage "c"⟩

/-- The script of a parsed program has no closing mark. In its page, the script is left at the
page's own closing tag and nowhere before or behind it. -/
theorem script_closed_once {source file : String} {program : Program}
    (h : Program.parse source file = .ok program) (title : String) :
    ∃ page inside, program.toPage title = .ok page ∧ ¬ ['<', '/'] <:+: page.script.toList ∧
      inside = Script.scriptBody (program.body.filterMap Script.declaredComponent?) page.script ∧
      page.html = Script.documentHead title page.css ++ "<script>" ++ inside ++ "</script>" ++
        Script.documentTail ∧
      ∀ before after,
        inside ++ "</script>" ++ Script.documentTail = before ++ "</script" ++ after →
          before = inside := by
  have hread := Syntax.grammatical_of_parse h
  obtain ⟨page, hpage, hscript, hhtml⟩ := Script.toPageWith_of_grammatical hread title
  have hcomponents : ∀ name ∈ program.body.filterMap Script.declaredComponent?,
      Token.isWord name := by
    intro name hname
    obtain ⟨n, hn, hdeclared⟩ := List.mem_filterMap.mp hname
    exact Script.isWord_of_declaredComponent (hread n hn) name hdeclared
  refine ⟨page, _, hpage _, hscript, rfl, ?_, fun _ _ => ?_⟩
  · exact hhtml
  · refine Script.eq_of_closing (Script.free_scriptBody hcomponents hscript) ?_
    rw [Script.getLast?_scriptBody]
    decide

/-- Closing tags in a key, a template and the title do not show in the script. -/
theorem script_closed_once_hostile :
    let source := "let a = \x7b \"</script>\": \x60</$\x7b1\x7d/script>\x60 \x7d"
    ∃ program, Program.parse source "main" = .ok program ∧
      ∃ page inside, program.toPage "</script>" = .ok page ∧
        ¬ ['<', '/'] <:+: page.script.toList ∧
        page.html = Script.documentHead "</script>" page.css ++ "<script>" ++ inside ++
          "</script>" ++ Script.documentTail := by
  intro source
  have hparses : (Program.parse source "main").toOption.isSome := by decide +kernel
  obtain ⟨program, hparse⟩ := exists_parse hparses
  obtain ⟨page, inside, hpage, hscript, -, hhtml, -⟩ := script_closed_once hparse "</script>"
  exact ⟨program, hparse, page, inside, hpage, hscript, hhtml⟩

end UiScript.Program
