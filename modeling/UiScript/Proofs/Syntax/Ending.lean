import UiScript.Proofs.Syntax.Joining
import UiScript.Proofs.Syntax.Reading

/-!
# Reading ends

Whatever tokens stand before the mark of the end, reading them ends. There is a program in the end,
or one of the documented faults.
-/

namespace UiScript.Syntax

/-- Tokens that need not come from a source. -/
def Input.ofTokens (ts : List Token) (file : String) : Input where
  file := file
  tokens := ts
  genuine := False
  Among _ := True
  closed := False.elim

/-- All loops of the grammar pass a token in each round. -/
lemma loops_safe {I : Input} {k : Nat} {r : Rules} (hI : ¬ I.genuine) (h : r.Safe I k) :
    ∀ lp ∈ loops r, ∀ a, Safe I k Anywhere (lp.round a) (·.isLeft = true) Always := by
  have hround {α β : Type} {step : α → Parse (α ⊕ β)} {J : α → Prop} {P : β → Prop}
      (hstep : Round I k step J P) (a : α) :
      Safe I k Anywhere (step a) (·.isLeft = true) Always :=
    (hstep a fun g => absurd g hI).imp fun _ _ => trivial
  simp only [loops, List.forall_mem_cons, List.not_mem_nil, false_implies, implies_true, and_true]
  exact ⟨hround (typeArgumentStep_round h), hround (paramStep_round h), hround (blockStep_round h),
    hround hyphenStep_round, hround (attributeStep_round h), hround textStep_round,
    hround (childStep_round h), hround (propertyStep_round h), hround (elementStep_round h),
    hround (argumentStep_round h), hround (accessStep_round h),
    hround (binaryStep_round (unary_safe h) (recognizes_checkAny _) (by decide)),
    hround (binaryStep_round (multiplicative_safe h) (recognizes_checkAny _) (by decide)),
    hround (binaryStep_round (additive_safe h) recognizes_isComparison (by decide)),
    hround (binaryStep_round (comparison_safe h) (recognizes_checkAny _) (by decide)),
    hround (logicalStep_round (equality_safe h) (by decide)),
    hround (logicalStep_round (conjunction_safe h) (by decide)), hround (pipeStep_round h),
    hround (nameStep_round .skipNewlines), hround (nameStep_round .idle),
    hround (styleStep_round h), hround (programStep_round h)⟩

lemma documented_of_ofTokens {ts : List Token} {file : String} {f : SyntaxFault}
    (hend : ∃ us t, ts = us ++ [t] ∧ t.kind = .endOfFile)
    (hnumbers : ∀ t ∈ ts, t.kind = .number → Token.IsNumeral t.value.toList)
    (h : Program.ofTokens ts file = .error f) : Documented file ts f := by
  cases ts with
  | nil => simp at hend
  | cons t ts =>
    let c : Cursor := { current := t, rest := ts, file }
    let I := Input.ofTokens (t :: ts) file
    have hfits : c.Fits I (nestingBound (t :: ts)) :=
      Within.self.fits hend hnumbers (List.suffix_refl _) rfl (Nat.le_refl _) False.elim
    have hends := programBody_safe I _ c hfits trivial
    rw [ofTokens_cons] at h
    generalize programBody _ _ = run at h hends
    cases run with
    | ok => cases h
    | error =>
      obtain rfl := Except.error.inj h
      exact hends

/-- Reading tokens that end with the mark of the end has an end itself: there is a program, or one
of the documented faults. Wherever reading stands on the way, in the tokens or in those of a
fragment, separators are passed up to a token that is none, and a loop that goes on has passed a
token. -/
theorem ofTokens_documented {ts : List Token} {file : String}
    (hend : ∃ us t, ts = us ++ [t] ∧ t.kind = .endOfFile)
    (hnumbers : ∀ t ∈ ts, t.kind = .number → Token.IsNumeral t.value.toList) :
    ((∃ p, Program.ofTokens ts file = .ok p) ∨
      ∃ f, Program.ofTokens ts file = .error f ∧ Documented file ts f) ∧
    ∀ us (c : Cursor) n, Within file ts us → c.tokens <:+ us → c.file = file →
      nestingBound c.tokens ≤ n →
        isSeparator c.skip.current.kind = false ∧
        ∀ lp ∈ loops (rules n), ∀ a b d, lp.round a c = .ok (.inl b) d →
          d.tokens <:+ c.tokens ∧ d.tokens.length < c.tokens.length := by
  constructor
  · cases hrun : Program.ofTokens ts file with
    | ok p => exact .inl ⟨p, rfl⟩
    | error f => exact .inr ⟨f, rfl, documented_of_ofTokens hend hnumbers hrun⟩
  · intro us c n hus hc hfile hbound
    let I := Input.ofTokens ts file
    have hfits : c.Fits I n := Within.fits hus hend hnumbers hc hfile hbound False.elim
    refine ⟨hfits.ended.skip_inside, fun lp hlp a b d hround => ?_⟩
    have hends := loops_safe id (rules_safe I n) lp hlp a c hfits trivial
    rw [hround] at hends
    exact ⟨hends.1, hends.2.2.1 rfl⟩

/-- A fragment with a lone bracket cannot be read. -/
theorem ofTokens_documented_fragment :
    let ts : List Token := [⟨.string, "a$\x7b(\x7d", ⟨1, 1, "main"⟩, true⟩,
      ⟨.endOfFile, "", ⟨1, 8, "main"⟩, false⟩]
    (∃ us t, ts = us ++ [t] ∧ t.kind = .endOfFile) ∧
      (∀ t ∈ ts, t.kind = .number → Token.IsNumeral t.value.toList) ∧
      ∃ f, Program.ofTokens ts "main" = .error f ∧ Documented "main" ts f := by
  intro ts
  have hend : ∃ us t, ts = us ++ [t] ∧ t.kind = .endOfFile := ⟨[_], _, rfl, rfl⟩
  have hkinds : ∀ t ∈ ts, t.kind ≠ .number := by decide
  have hnumbers : ∀ t ∈ ts, t.kind = .number → Token.IsNumeral t.value.toList :=
    fun t ht hkind => absurd hkind (hkinds t ht)
  have hnone : (Program.ofTokens ts "main").toOption.isSome = false := by decide +kernel
  refine ⟨hend, hnumbers, ?_⟩
  rcases (ofTokens_documented hend hnumbers).1 with ⟨p, hp⟩ | hfault
  · rw [hp] at hnone
    cases hnone
  · exact hfault

/-- A source that cannot be read has a fault with a diagnostic, or an integer that is too long. -/
lemma fault_of_parse {source file : String} {f : SyntaxFault}
    (h : Program.parse source file = .error f) :
    (∃ d, f.diagnostic? = some d) ∨ ∃ n, 4300 < n ∧ f = .numeral (.tooManyDigits n) := by
  unfold Program.parse at h
  cases hts : Token.tokenize source file with
  | error =>
    rw [hts] at h
    obtain rfl := Except.error.inj h
    exact .inl ⟨_, rfl⟩
  | ok =>
    rw [hts] at h
    have hfault := documented_of_ofTokens (tokenize_ended hts)
      (fun t ht => isNumeral_of_genuine (Token.tokenize_genuine hts t ht)) h
    cases hfault with
    | grammar _ _ hf => exact .inl ⟨_, hf⟩
    | lexical => exact .inl ⟨_, rfl⟩
    | digits _ _ _ _ hlong => exact .inr ⟨_, hlong, rfl⟩

end UiScript.Syntax
