import UiScript.Proofs.Syntax.Outline
import UiScript.Proofs.Types.Order

/-!
# What a check leaves alone

The current frame, the result that is required and the function are set on the way into a block or a
function and put back behind it. Inferring the type of a node and checking it therefore change
nothing but the diagnostics and the tree of scopes, and both only grow.
-/

namespace UiScript.Types

variable {α : Type} {m : Check α} {n : Node}

/-- The name that a statement defines: that of a variable or of a state, perhaps in exports. -/
def definedName? : Node → Option String
  | .binding _ name _ _ _ | .state _ name _ _ => some name
  | .exports _ _ (some n) => definedName? n
  | _ => none

lemma isSome_definedName? (n : Node) : (definedName? n).isSome = declaresValue n := by
  cases n with
  | exports _ _ declaration =>
    cases declaration with
    | none => rfl
    | some n => exact isSome_definedName? n
  | _ => rfl

/-- A check that keeps the current frame in two runs only adds frames in one. -/
lemma Coupled.run_kept (h : Coupled .strict m m) (c : Checker) :
    ∃ a s ds, m.run c = (a, c.moved s ds) ∧ s.current = c.scopes.current ∧
      c.scopes.frames <+: s.frames := by
  obtain ⟨a, ds, _, s, _, hrun, _, hs, _⟩ := h fun name => .refl name c
  exact ⟨a, s, ds, hrun, hs.current, hs.isPrefix⟩

lemma checkBinding_run {what name : String} {written : Option TypeExpr} {place : Option Place}
    (h : Steady true n) (c : Checker) :
    ∃ t s ds, (checkBinding what name written (n, judge n) place).run c = ((), c.moved s ds) ∧
      s.current = c.scopes.current ∧
      (c.scopes.define c.scopes.current name t).frames <+: s.frames := by
  obtain ⟨actual, s, ds, hrun, hcurrent, hframes⟩ := h.infer.run_kept c
  let t := if (Ty.ofWritten written).same .any then actual else .ofWritten written
  -- the type is defined in any case, perhaps behind a report
  have hrest (d : Diagnostic) (fits : Bool) : ∃ ds', (if !fits then report d >>= fun _ =>
      define name t else define name t).run (c.moved s ds) =
        ((), c.moved (s.defineIn s.current name t) ds') := by
    cases fits with
    | true => exact ⟨ds, rfl⟩
    | false =>
      refine ⟨ds ++ [d], ?_⟩
      rw [Checker.moved, Checker.moved, ← List.append_assoc]
      rfl
  obtain ⟨ds', hrest⟩ := hrest _ (actual.isCompatible (.ofWritten written))
  refine ⟨t, s.defineIn s.current name t, ds', ?_, hcurrent, ?_⟩
  · rw [checkBinding, StateT.run_bind, hrun]
    exact hrest
  · rw [← hcurrent]
    exact ScopeTree.isPrefix_define hframes _ name t

/-- A statement defines nothing but its own name. -/
lemma check_run {pos : Syntax.Position} {n : Node} (h : Syntax.Grammatical pos n) (c : Checker) :
    ∃ t s ds, (judge n).check.run c = ((), c.moved s ds) ∧ s.current = c.scopes.current ∧
      ((definedName? n).elim c.scopes.toScopeTree fun name =>
        c.scopes.define c.scopes.current name t).frames <+: s.frames := by
  by_cases hvalue : declaresValue n
  · cases h with
    | binding _ hn | state _ hn => exact checkBinding_run (steady_of_grammatical true hn) c
    | @exports _ _ declaration _ hdeclaration =>
      cases declaration with
      | none => cases hvalue
      | some d => exact check_run (hdeclaration d rfl) c
    | _ => cases hvalue
  · rw [Bool.not_eq_true] at hvalue
    have hcheck := (steady_of_grammatical true h).check
    rw [hvalue] at hcheck
    rw [← isSome_definedName?] at hvalue
    rw [Option.eq_none_of_isNone (Option.isSome_eq_false_iff.mp hvalue)]
    obtain ⟨_, s, ds, hkept⟩ := hcheck.run_kept c
    exact ⟨.any, s, ds, hkept⟩

/-- The frame of a check. For every node in a program, wherever it stands, inferring its type and
checking it come back to the current frame, to the result that is required and to the function
that they started in. They add to the diagnostics and add frames, and every frame that there was,
those around the current one among them, binds the names that it bound; a variable or a state,
perhaps in exports, defines its own name in the current frame, and nothing else. -/
theorem check_frame {source file : String} {p : Program} (hp : Program.parse source file = .ok p)
    {n : Node} (hn : n ∈ Node.outlineList p.body) (c : Checker) :
    (∃ t s ds, (judge n).infer.run c =
        (t, { c with scopes := s, diagnostics := c.diagnostics ++ ds }) ∧
      s.current = c.scopes.current ∧ c.scopes.frames <+: s.frames) ∧
    ∃ t s ds, (judge n).check.run c =
        ((), { c with scopes := s, diagnostics := c.diagnostics ++ ds }) ∧
      s.current = c.scopes.current ∧
      ((definedName? n).elim c.scopes.toScopeTree fun name =>
        c.scopes.define c.scopes.current name t).frames <+: s.frames := by
  obtain ⟨pos, hread, -⟩ := Syntax.readable_of_mem_outline (Syntax.grammatical_of_parse hp) n hn
  exact ⟨(steady_of_grammatical true hread).infer.run_kept c, check_run hread c⟩

/-- An exported state inside a component, around whose value names are bound. -/
theorem check_frame_export :
    let source := "component A() \x7b\n  export state s = [1].map((x) => x)\n\x7d"
    ∃ p, Program.parse source "main" = .ok p ∧ ∃ n ∈ Node.outlineList p.body,
      definedName? n = some "s" ∧ ∀ c, ∃ t s ds, (judge n).check.run c =
          ((), { c with scopes := s, diagnostics := c.diagnostics ++ ds }) ∧
        s.current = c.scopes.current ∧
        (c.scopes.define c.scopes.current "s" t).frames <+: s.frames := by
  intro source
  have hsource : ((Program.parse source "main").toOption.map fun p =>
      (Node.outlineList p.body).any fun n => definedName? n == some "s") = some true := by
    decide +kernel
  obtain ⟨p, hp, hsource⟩ := exists_of_toOption hsource
  obtain ⟨n, hn, hname⟩ := List.any_eq_true.mp hsource
  rw [beq_iff_eq] at hname
  refine ⟨p, hp, n, hn, hname, fun c => ?_⟩
  have hframe := (check_frame hp hn c).2
  rwa [hname] at hframe

end UiScript.Types
