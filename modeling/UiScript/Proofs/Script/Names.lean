import UiScript.Proofs.Page

/-!
# Names of components stay inside components

Outside components the generator has no state names, so no assignment is routed, and it writes no
code that renders. What it writes there has the names of a component nowhere, if no token of the
source has them. Markup with events is left out, since its handlers render wherever they stand.
-/

namespace UiScript.Script

variable {k : Mark}

/-- A token has no name that the source has not, unless an escape in a string spells it. -/
lemma free_of_occurs {source file : String} (hsource : Free k source)
    (hstrings : ∀ t, Syntax.Occurs source file t → t.kind = .string → Free k t.value) {t : Token}
    (ht : Syntax.Occurs source file t) : Free k t.value := by
  rcases ht.sourced.inSource with ⟨text, hwithin, htext⟩ | hend
  · have hfree {value : String} (heq : text = value.toList) : Free k value :=
      hsource.of_within (heq ▸ hwithin)
    generalize hrow : t.row = row at htext
    have hvalue : t.value = row.value := congrArg Token.Row.value hrow
    have hkind : t.kind = row.kind := congrArg Token.Row.kind hrow
    rw [hvalue]
    cases htext with
    | newline => exact .of_isFree (by decide)
    | number | word | mark => exact hfree rfl
    | quoted | template => exact hvalue ▸ hstrings t ht hkind
  · have hvalue : t.value = "" := congrArg Token.Row.value hend
    rw [hvalue]
    exact .of_isFree (by decide)

end UiScript.Script

namespace UiScript.Program

open Script
open Syntax (Occurs)

/-- The script of a program without components has no name that components use, if its source has
none, neither in its text nor spelled by the escapes of a string, and if, for the name of what
renders, no markup has a handler of an event. -/
theorem runtime_names_absent {source file : String} {program : Program}
    (h : Program.parse source file = .ok program)
    (hcomponents : ∀ n ∈ Node.outlineList program.body, isComponent n = false) (k : Mark)
    (hsource : Free k source)
    (hstrings : ∀ t, Occurs source file t → t.kind = .string → Free k t.value)
    (hevents : k = .render → ∀ n ∈ Node.outlineList program.body, hasEvent n = false)
    (title : String) :
    ∃ page, program.toPage title = .ok page ∧ Free k page.script := by
  have hpermits : ∀ n ∈ program.body, Permits k (fun _ => True) n := by
    intro n hn m hm
    have hinside : m ∈ Node.outlineList program.body := Node.mem_outlineList.mpr ⟨n, hn, hm⟩
    refine ⟨fun hcomponent => ?_, fun hevent hk => ?_, ruleFits_true m⟩
    · rw [hcomponents m hinside] at hcomponent
      cases hcomponent
    · rw [hevents hk m hinside] at hevent
      cases hevent
  obtain ⟨page, hpage, hfree, -⟩ := toPageWith_of_drawn
    (fun t ht _ => free_of_occurs hsource hstrings ht) (Syntax.occurs_of_parse h) hpermits title
  exact ⟨page, hpage _, hfree⟩

/-- Markup, a string and an assignment outside components. -/
theorem runtime_names_absent_markup :
    let source := "let x = 0\nfn f() \x7b x = 1 \x7d\nlet y = <p class=\"a\">\x7bf()\x7d</p>"
    ∃ program page, Program.parse source "main" = .ok program ∧ program.toPage "t" = .ok page ∧
      Free .render page.script := by
  intro source
  have hfacts : ((Program.parse source "main").toOption.map fun program =>
      (Node.outlineList program.body).all fun n => !isComponent n && !hasEvent n) = some true := by
    decide +kernel
  have htokens : (Token.tokenize source "main").toOption.any (·.all fun t =>
      !t.template && decide (Free .render t.value)) := by
    decide +kernel
  have hoccurs (t : Token) (ht : Occurs source "main" t) :
      t.template = false ∧ Free .render t.value := by
    induction ht with
    | token hts ht =>
      rw [hts] at htokens
      simpa using List.all_eq_true.mp htokens _ ht
    | fragment _ htemplate _ _ _ ih =>
      rw [ih.1] at htemplate
      cases htemplate
  obtain ⟨program, hparse, hfacts⟩ := exists_of_toOption hfacts
  have hnodes (n : Node) (hn : n ∈ Node.outlineList program.body) :
      isComponent n = false ∧ hasEvent n = false := by
    simpa using List.all_eq_true.mp hfacts n hn
  obtain ⟨page, hpage, hfree⟩ := runtime_names_absent hparse (fun n hn => (hnodes n hn).1) .render
    (by decide +kernel) (fun t ht _ => (hoccurs t ht).2)
    (fun _ n hn => (hnodes n hn).2) "t"
  exact ⟨program, page, hparse, hpage, hfree⟩

/-- A string may spell a name that the source does not have. -/
theorem runtime_names_absent_escape :
    let source := "let x = \"__\\render\""
    ∃ program page, Program.parse source "main" = .ok program ∧
      (∀ n ∈ Node.outlineList program.body, isComponent n = false) ∧ (∀ k, Free k source) ∧
      program.toPage "t" = .ok page ∧ ¬ Free .render page.script := by
  intro source
  have hfacts : ((Program.parse source "main").toOption.map fun program =>
      ((Node.outlineList program.body).all fun n => !isComponent n,
        (program.toPage "t").toOption.map fun page => decide (Free .render page.script))) =
      some (true, some false) := by
    decide +kernel
  obtain ⟨program, hparse, hfacts⟩ := exists_of_toOption hfacts
  obtain ⟨hnodes, hscript⟩ := Prod.mk.inj hfacts
  obtain ⟨page, hpage, hscript⟩ := exists_of_toOption hscript
  refine ⟨program, page, hparse, fun n hn => ?_, fun k => .of_isFree (by decide +kernel), hpage,
    of_decide_eq_false hscript⟩
  simpa using List.all_eq_true.mp hnodes n hn

end UiScript.Program
