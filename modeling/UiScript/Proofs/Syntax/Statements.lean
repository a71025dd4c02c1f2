import UiScript.Proofs.Syntax.Layout

/-!
# Sequences of statements

The loop that reads a program is a sequence of statements, each behind the separators after the one
before. The loop is counted by the tokens; it never stops for the count alone, since a statement
that used up no token would be read again and again.
-/

namespace UiScript.Syntax

open Token (Kind)
open Simulation

/-- `Statements r c ns d`: from `c` on the statements `ns` are read one after another, up to `d`. -/
inductive Statements (r : Rules) : Cursor → List Node → Cursor → Prop
  | nil (c : Cursor) : Statements r c [] c
  | cons {c d e : Cursor} {n : Node} {ns : List Node} (hc : c.skip.current.kind ≠ .endOfFile)
      (hn : r.statement c.skip = .ok n d) (h : Statements r d ns e) : Statements r c (n :: ns) e

variable {c d e : Cursor} {ns acc body : List Node} {ts : List Token} {file : String}

lemma Statements.append {r : Rules} {ms : List Node} (h : Statements r c ns d)
    (h' : Statements r d ms e) : Statements r c (ns ++ ms) e := by
  induction h with
  | nil => exact h'
  | cons hc hn _ ih => exact .cons hc hn (ih h')

/-! ### The loop -/

/-- One round of the loop that reads a program. -/
def programStep (r : Rules) : List Node → Parse (List Node ⊕ List Node) :=
  untilStep (do skipNewlines; atEnd) r.statement

lemma programBody_run (r : Rules) (c : Cursor) :
    programBody r c = loop (programStep r) (c.rest.length + 2) [] c := rfl

variable {r r' : Rules}

lemma programStep_run (acc : List Node) (c : Cursor) :
    programStep r acc c =
      if c.skip.current.kind = .endOfFile then .ok (.inr acc.reverse) c.skip
      else match r.statement c.skip with
        | .ok n d => .ok (.inl (n :: acc)) d
        | .error e d => .error e d := by
  have hdone : (do skipNewlines; atEnd : Parse Bool) c =
      .ok (c.skip.current.kind == .endOfFile) c.skip := rfl
  unfold programStep untilStep
  rw [bind_ok hdone]
  by_cases hk : c.skip.current.kind = .endOfFile
  · simp [hk]
  · rw [if_neg hk, if_neg (by simpa using hk), bind_run]
    cases r.statement c.skip <;> rfl

/-- A round of the loop finds the end, or reads a statement and leaves the rest to more rounds. -/
lemma loop_succ {n : Nat} (h : loop (programStep r) (n + 1) acc c = .ok body e) :
    c.skip.current.kind = .endOfFile ∧ body = acc.reverse ∨
      ∃ m d, c.skip.current.kind ≠ .endOfFile ∧ r.statement c.skip = .ok m d ∧
        loop (programStep r) n (m :: acc) d = .ok body e := by
  unfold loop at h
  rw [bind_run, programStep_run] at h
  split_ifs at h with hk
  · cases h
    exact .inl ⟨hk, rfl⟩
  · cases hm : r.statement c.skip with
    | error =>
      rw [hm] at h
      cases h
    | ok m d =>
      rw [hm] at h
      exact .inr ⟨m, d, hk, rfl, h⟩

lemma statements_of_loop {n : Nat} (h : loop (programStep r) n acc c = .ok body d) :
    ∃ ns e, Statements r c ns e ∧ e.skip.current.kind = .endOfFile ∧ body = acc.reverse ++ ns := by
  induction n generalizing acc c with
  | zero => cases h
  | succ n ih =>
    rcases loop_succ h with ⟨hk, rfl⟩ | ⟨m, c₁, hk, hm, hnext⟩
    · exact ⟨[], c, .nil c, hk, by simp⟩
    · obtain ⟨ns, e, hns, he, rfl⟩ := ih hnext
      exact ⟨m :: ns, e, .cons hk hm hns, he, by simp⟩

lemma loop_of_statements (h : Statements r c ns e) (he : e.skip.current.kind = .endOfFile) :
    ∀ {n : Nat}, ns.length < n → ∀ acc,
      loop (programStep r) n acc c = .ok (acc.reverse ++ ns) e.skip := by
  induction h with
  | nil c =>
    intro n hn acc
    obtain ⟨n, rfl⟩ := Nat.exists_eq_succ_of_ne_zero (by omega : n ≠ 0)
    have hstep : programStep r acc c = .ok (.inr acc.reverse) c.skip := by
      rw [programStep_run, if_pos he]
    unfold loop
    rw [bind_ok hstep]
    simp
  | @cons c d e m ms hc hm _ ih =>
    intro n hn acc
    simp only [List.length_cons] at hn
    obtain ⟨n, rfl⟩ := Nat.exists_eq_succ_of_ne_zero (by omega : n ≠ 0)
    have hstep : programStep r acc c = .ok (.inl (m :: acc)) d := by
      rw [programStep_run, if_neg hc, hm]
    unfold loop
    rw [bind_ok hstep]
    simpa using ih he (by omega) (m :: acc)

/-! ### Progress -/

lemma Simulation.Passes.rows_eq {s s₁ : List Bracket} {g : Grade} (h : Passes s s₁ g c d)
    (hlen : d.rest.length = c.rest.length) : d.rows = c.rows := by
  obtain ⟨u, hu, -⟩ := h
  have hlength := congrArg List.length hu
  simp only [Cursor.tokens, List.length_append, List.length_cons] at hlength
  obtain rfl : u = [] := List.length_eq_zero_iff.mp (by omega)
  rw [Cursor.rows, Cursor.rows, hu, List.nil_append]

/-- A statement that used up no token would be read again without end. -/
lemma loop_of_stalled (hr : sameRows.RulesFollow r r) {m : Node}
    (hc : c.skip.current.kind ≠ .endOfFile) (hm : r.statement c.skip = .ok m d)
    (hd : d.skip.rows = c.skip.rows) (n : Nat) {c' : Cursor} (hc' : c'.skip.rows = c.skip.rows)
    (acc : List Node) : ∀ body e, loop (programStep r) n acc c' ≠ .ok body e := by
  intro body e h
  induction n generalizing acc c' with
  | zero => cases h
  | succ n ih =>
    rcases loop_succ h with ⟨hend, -⟩ | ⟨m', c₁, -, hm', hnext⟩
    · have hk := (Token.row_eq_iff.mp (Cursor.rows_eq_iff.mp hc').1).1
      exact hc (hk ▸ hend)
    · have hagrees := (hr.statement []).agrees trivial hc'.symm
      rw [hm, hm'] at hagrees
      cases hagrees with
      | lost hl => exact hl.2.1 trivial
      | ok _ hrows =>
        have hskip := Cursor.rows_skip (hrows : d.rows = c₁.rows)
        exact ih (hskip.symm.trans hd) _ hnext

lemma length_of_loop (hr : sameRows.RulesFollow r r) {n : Nat}
    (hc : c.Ended) (h : loop (programStep r) n acc c = .ok body e) :
    body.length ≤ acc.length + c.skip.rest.length := by
  induction n generalizing acc c with
  | zero => cases h
  | succ n ih =>
    rcases loop_succ h with ⟨-, rfl⟩ | ⟨m, c₁, hk, hm, hnext⟩
    · simp
    · have hskip := Passes.skip [] .past c
      have hpass := (hr.statement []).reads (hskip.ended hc) trivial hm
      have hlen := ih (hpass.ended (hskip.ended hc)) hnext
      have hle := hpass.length_le
      have hle' := (Passes.skip [] .past c₁).length_le
      simp only [List.length_cons] at hlen
      by_cases heq : c₁.skip.rest.length = c.skip.rest.length
      · have hrows := (hpass.trans (.skip [] .past c₁) id).rows_eq heq
        exact absurd hnext (loop_of_stalled hr hk hm hrows n hrows _ _ _)
      · omega

/-! ### Sequences from other cursors -/

/-- A sequence of statements closes its brackets and does not end with a comma. -/
lemma Statements.passes (hr : sameRows.RulesFollow r r)
    (h : Statements r c ns d) (hc : c.Ended) : Passes [] [] .past c d := by
  induction h with
  | nil c => exact .refl [] .past c
  | @cons c d e n ns _ hn _ ih =>
    have hskip := Passes.skip [] .past c
    have hpass := hskip.trans ((hr.statement []).reads (hskip.ended hc) trivial hn) id
    exact hpass.trans (ih (hpass.ended hc)) id

/-- From cursors whose tokens say the same, the same statements are read. -/
lemma Statements.of_rows (hr : sameRows.RulesFollow r r') {c' : Cursor}
    (h : Statements r c ns d) (hc : c.skip.rows = c'.skip.rows) :
    ∃ ns' d', Statements r' c' ns' d' ∧ ns.map Node.unplaced = ns'.map Node.unplaced ∧
      d.skip.rows = d'.skip.rows := by
  induction h generalizing c' with
  | nil => exact ⟨[], c', .nil c', rfl, hc⟩
  | @cons c d e n ns hk hn _ ih =>
    have hagrees := (hr.statement []).agrees trivial hc
    rw [hn] at hagrees
    generalize hn' : r'.statement c'.skip = result at hagrees
    cases hagrees with
    | lost hl => exact absurd trivial hl.2.1
    | @ok _ n' _ d' hv hd =>
      obtain ⟨ns', e', hns', hview, he⟩ := ih (Cursor.rows_skip (hd : d.rows = d'.rows))
      have hk' : c'.skip.current.kind ≠ .endOfFile := by
        rwa [← (Token.row_eq_iff.mp (Cursor.rows_eq_iff.mp hc).1).1]
      exact ⟨n' :: ns', e', .cons hk' hn' hns', by simp [hv, hview], he⟩

/-! ### What no statement starts with -/

/-- A reading does not succeed from a cursor. -/
def Fails {α : Type} (m : Parse α) (c : Cursor) : Prop := ∀ a d, m c ≠ .ok a d

lemma Fails.bind {α β : Type} {m : Parse α} (h : Fails m c) {f : α → Parse β} :
    Fails (m >>= f) c := by
  intro b e hr
  obtain ⟨a, d, hm, -⟩ := bind_eq_ok.mp hr
  exact h a d hm

lemma expression_fails (h : Fails (unary r) c) : Fails (expression r) c := by
  have hproduct : Fails (multiplicative r) c := h.bind
  have hsum : Fails (additive r) c := hproduct.bind
  have hcomparison : Fails (comparison r) c := hsum.bind
  have hequality : Fails (equality r) c := hcomparison.bind
  have hconjunction : Fails (conjunction r) c := hequality.bind
  have hdisjunction : Fails (disjunction r) c := hconjunction.bind
  have hconditional : Fails (conditional r) c := hdisjunction.bind
  have hassignment : Fails (assignment r) c := hconditional.bind
  exact hassignment.bind

/-- A token that continues or closes something and starts nothing. -/
def startsNothing (k : Kind) : Bool := k.isCloser || k == .symbol .arrow

lemma startsNothing_cases {k : Kind} (h : startsNothing k = true) :
    k = .symbol .rightBrace ∨ k = .symbol .rightParen ∨ k = .symbol .rightBracket ∨
      k = .keyword .elseWord ∨ k = .symbol .arrow := by
  rcases Bool.or_eq_true_iff.mp h with h | h
  · unfold Token.Kind.isCloser at h
    split at h <;> simp_all
  · simp [eq_of_beq h]

section

variable (h : startsNothing c.current.kind = true)
include h

lemma atElement_of_startsNothing : atElement c = .ok false c := by
  rw [atElement_run]
  rcases startsNothing_cases h with hk | hk | hk | hk | hk <;> rw [hk] <;> rfl

lemma unary_fails : Fails (unary r) c := by
  have hprimary : Fails (primary r) c := by
    intro a d hr
    unfold primary at hr
    rw [bind_ok (get_run c)] at hr
    rcases startsNothing_cases h with hk | hk | hk | hk | hk <;>
    · simp only [hk] at hr
      rw [bind_ok (atElement_of_startsNothing h)] at hr
      cases hr
  intro a d hr
  unfold unary at hr
  rw [bind_ok (peek_run c), if_neg] at hr
  · exact hprimary.bind a d hr
  · rcases startsNothing_cases h with hk | hk | hk | hk | hk <;> simp [hk, isUnaryOperator]

lemma statement_fails : Fails (statement r) c := by
  have hexpression : Fails (expressionStatement r) c := by
    intro a d hr
    unfold expressionStatement at hr
    rw [bind_ok (here_run c)] at hr
    exact (expression_fails (unary_fails h)).bind a d hr
  intro a d hr
  unfold statement at hr
  rw [bind_ok (peek_run c)] at hr
  rcases startsNothing_cases h with hk | hk | hk | hk | hk <;>
  · simp only [hk] at hr
    rw [bind_ok (atElement_of_startsNothing h)] at hr
    exact hexpression a d hr

lemma rules_statement_fails : ∀ n, Fails (rules n).statement c
  | 0 => fun _ _ hr => nomatch hr
  | _ + 1 => statement_fails h

end

/-! ### Programs -/

/-- A program that was read is a sequence of statements up to the end. -/
lemma statements_of_ofTokens {p : Program} (h : Program.ofTokens ts file = .ok p) :
    ∃ c d, c.tokens = ts ∧ Statements (rules (nestingBound ts)) c p.body d ∧
      d.skip.current.kind = .endOfFile ∧ (c.Ended → p.body.length ≤ c.skip.rest.length) := by
  cases ts with
  | nil => cases h
  | cons t ts =>
    rw [ofTokens_cons, programBody_run] at h
    generalize hc : ({ current := t, rest := ts, file } : Cursor) = c at h
    cases hloop : loop (programStep (rules (nestingBound (t :: ts)))) (c.rest.length + 2) [] c with
    | error =>
      rw [hloop] at h
      cases h
    | ok body =>
      rw [hloop] at h
      cases h
      obtain ⟨ns, e, hns, he, hbody⟩ := statements_of_loop hloop
      obtain rfl : body = ns := hbody
      refine ⟨c, e, by simp [← hc, Cursor.tokens], hns, he, fun hend => ?_⟩
      simpa using length_of_loop (rules_follow sameRows _ _ (Nat.le_refl _)) hend hloop

lemma ofTokens_of_statements {t : Token} (h : Statements (rules (nestingBound (t :: ts)))
      { current := t, rest := ts, file } ns e) (he : e.skip.current.kind = .endOfFile)
    (hn : ns.length < ts.length + 2) :
    ∃ p, Program.ofTokens (t :: ts) file = .ok p ∧ p.body = ns := by
  rw [ofTokens_cons, programBody_run, loop_of_statements h he hn]
  exact ⟨_, rfl, rfl⟩

lemma ofTokens_error {t : Token} {f : SyntaxFault}
    (hc : ({ current := t, rest := ts, file } : Cursor).skip = c)
    (hend : c.current.kind ≠ .endOfFile)
    (h : (rules (nestingBound (t :: ts))).statement c = .error f d) :
    Program.ofTokens (t :: ts) file = .error f := by
  rw [ofTokens_cons, programBody_run, loop, bind_error]
  · rfl
  · rw [programStep_run, hc, if_neg hend, h]

end UiScript.Syntax

/-- What is evaluated of a result that exists. -/
lemma UiScript.exists_of_toOption {ε α β : Type} {e : Except ε α} {f : α → β} {b : β}
    (h : e.toOption.map f = some b) : ∃ a, e = .ok a ∧ f a = b := by
  cases e with
  | error => cases h
  | ok a => exact ⟨a, rfl, Option.some.inj h⟩
