import UiScript.Compile
import UiScript.Proofs.Script.Places
import UiScript.Proofs.Syntax.Layout
import UiScript.Proofs.Token.Gaps
import UiScript.Proofs.Types.Order

/-!
# Compilation does not depend on layout

A source compiles to what its program compiles to, whatever is logged on the way. Together with what
the reader, the checker and the generator make of places this shows that two sources with the same
tokens compile to the same page, and that blanks and comments between tokens do not matter.
-/

namespace UiScript

open Token (tokenize row sourceRows)

open Diagnostic (unplaced)

/-! ### Compilation without its log -/

namespace Compile

/-- The computation ends like this whatever was logged before. -/
def Yields {α : Type} (m : Compile α) (r : Except CompileFault α) : Prop :=
  ∀ entries, (m.run.run entries).1 = r

namespace Yields

variable {α β : Type}

lemma pure (a : α) : Yields (Pure.pure a) (.ok a) := fun _ => rfl

lemma throw (e : CompileFault) : Yields (MonadExcept.throw e : Compile α) (.error e) := fun _ => rfl

lemma log (level : Log.Level) (part message : String) :
    Yields (log level part message) (.ok ()) := fun _ => rfl

lemma bind {m : Compile α} {f : α → Compile β} {a : α} {r : Except CompileFault β}
    (h : Yields m (.ok a)) (hf : Yields (f a) r) : Yields (m >>= f) r := by
  intro entries
  have hm := h entries
  rw [ExceptT.run_bind, StateT.run_bind]
  generalize m.run.run entries = x at hm ⊢
  obtain ⟨y, entries'⟩ := x
  obtain rfl : y = .ok a := hm
  exact hf entries'

lemma bind_error {m : Compile α} {f : α → Compile β} {e : CompileFault}
    (h : Yields m (.error e)) : Yields (m >>= f) (.error e) := by
  intro entries
  have hm := h entries
  rw [ExceptT.run_bind, StateT.run_bind]
  generalize m.run.run entries = x at hm ⊢
  obtain ⟨y, entries'⟩ := x
  obtain rfl : y = .error e := hm
  rfl

end Yields

lemma logFragments_yields (file : String) (ns : List Nat) :
    Yields (logFragments file ns) (.ok ()) := by
  induction ns with
  | nil => exact .pure ()
  | cons n ns ih => exact .bind (.log _ _ _) ih

lemma logRemarks_yields (remarks : List String) : Yields (logRemarks remarks) (.ok ()) := by
  induction remarks with
  | nil => exact .pure ()
  | cons r rs ih => exact .bind (.log _ _ _) ih

lemma program_yields (source file : String) :
    Yields (program source file)
      (match Program.parse source file with
      | .error f => .error (.grammar f)
      | .ok p => .ok p) := by
  unfold program tokens Program.parse
  cases tokenize source file with
  | error => exact .bind_error (.throw _)
  | ok ts =>
    refine .bind (.bind (.log _ _ _) (.pure ts)) ?_
    dsimp only [Program.ofTokens]
    rcases Syntax.parseTraced ts file with ⟨result, fragments⟩
    refine .bind (logFragments_yields file fragments) ?_
    cases result with
    | error => exact .throw _
    | ok p => exact .bind (.log _ _ _) (.pure p)

lemma page_yields (p : Program) (title : String) :
    Yields (page p title)
      (match p.toPage title with
      | .error e => .error (.generating e)
      | .ok page => .ok page) := by
  unfold page Program.toPage Program.toPageWith
  cases (Script.page p).run { title } with
  | error => exact .throw _
  | ok r => exact .bind (logRemarks_yields r.2.remarks) (.pure r.1)

def finished (p : Program) (options : Options) (diagnostics : List Diagnostic) :
    Except CompileFault Compiled :=
  if options.strict && !diagnostics.isEmpty then .error (.typing diagnostics)
  else
    match p.toPage options.title with
    | .error e => .error (.generating e)
    | .ok page => .ok { page, diagnostics }

lemma finish_yields (p : Program) (file : String) (options : Options) (ds : List Diagnostic) :
    Yields (finish p file options ds) (finished p options ds) := by
  have hpage : Yields (page p options.title >>= fun page => pure (Compiled.mk page ds))
      (match p.toPage options.title with
      | .error e => .error (.generating e)
      | .ok page => .ok ⟨page, ds⟩) := by
    have hpage := page_yields p options.title
    cases hresult : p.toPage options.title with
    | error =>
      rw [hresult] at hpage
      exact hpage.bind_error
    | ok =>
      rw [hresult] at hpage
      exact hpage.bind (.pure _)
  unfold finish finished
  by_cases hempty : ds.isEmpty
  · simpa [hempty] using hpage
  · by_cases hstrict : options.strict
    · simp only [hempty, hstrict]
      exact .bind (.log _ _ _) (.bind_error (.throw _))
    · simp only [hempty, hstrict]
      exact .bind (.log _ _ _) hpage

def asked (p : Program) (options : Options) : List Diagnostic :=
  if options.typecheck || options.strict then p.typeDiagnostics else []

lemma source_yields (text file : String) (options : Options) :
    Yields (source text file options)
      (match Program.parse text file with
      | .error f => .error (.grammar f)
      | .ok p => finished p options (asked p options)) := by
  have hprogram := program_yields text file
  unfold source
  cases hp : Program.parse text file with
  | error =>
    rw [hp] at hprogram
    exact hprogram.bind_error
  | ok p =>
    rw [hp] at hprogram
    refine hprogram.bind ?_
    dsimp only [asked]
    by_cases htype : options.typecheck || options.strict
    · rw [if_pos htype, if_pos htype]
      exact .bind (.bind (.log _ _ _) (.pure _)) (finish_yields p file options _)
    · rw [if_neg htype, if_neg htype]
      exact .bind (.pure []) (finish_yields p file options [])

end Compile

lemma compile_eq (text file : String) (options : Compile.Options) :
    compile text file options =
      match Program.parse text file with
      | .error f => .error (.grammar f)
      | .ok p => Compile.finished p options (Compile.asked p options) :=
  Compile.source_yields text file options []

/-! ### Programs without places -/

/-- The two compilations end in the same way: with the same page and, apart from places, with the
same diagnostics or the same message. -/
def SameCompiled : Except CompileFault Compiled → Except CompileFault Compiled → Prop
  | .ok c, .ok c' => c.page = c'.page ∧
    c.diagnostics.map unplaced = c'.diagnostics.map unplaced
  | .error (.grammar f), .error (.grammar f') => f.message = f'.message
  | .error (.typing ds), .error (.typing ds') =>
    ds.map unplaced = ds'.map unplaced
  | .error (.generating e), .error (.generating e') => e = e'
  | _, _ => False

section Programs

variable {p p' : Program} {text text' file file' : String}
  (hp : Program.parse text file = .ok p) (hp' : Program.parse text' file' = .ok p')
  (h : p.body.map Node.unplaced = p'.body.map Node.unplaced)
include hp hp' h

lemma typeDiagnostics_of_parse :
    p.typeDiagnostics.map unplaced = p'.typeDiagnostics.map unplaced :=
  Types.typeDiagnostics_unplaced (Syntax.grammatical_of_parse hp)
    (Syntax.grammatical_of_parse hp') h

lemma finished_unplaced (options : Compile.Options) :
    SameCompiled (Compile.finished p options (Compile.asked p options))
      (Compile.finished p' options (Compile.asked p' options)) := by
  have hasked : (Compile.asked p options).map unplaced =
      (Compile.asked p' options).map unplaced := by
    unfold Compile.asked
    split
    · exact typeDiagnostics_of_parse hp hp' h
    · rfl
  have hempty : (Compile.asked p options).isEmpty = (Compile.asked p' options).isEmpty := by
    simpa using congrArg List.isEmpty hasked
  unfold Compile.finished
  rw [hempty, Program.toPage_unplaced h]
  split_ifs
  · exact hasked
  · cases p'.toPage options.title with
    | error => exact rfl
    | ok => exact ⟨rfl, hasked⟩

end Programs

/-- Sources whose tokens say the same compile to the same. -/
lemma compile_rows {text text' : String}
    (h : sourceRows text = sourceRows text') (file file' : String)
    (options : Compile.Options) :
    SameCompiled (compile text file options) (compile text' file' options) := by
  have hparse := Syntax.parse_rows h file file'
  rw [compile_eq, compile_eq]
  generalize hr : Program.parse text file = r, hr' : Program.parse text' file' = r' at hparse ⊢
  cases r with
  | error =>
    cases r' with
    | error => exact hparse
    | ok => exact hparse.elim
  | ok =>
    cases r' with
    | error => exact hparse.elim
    | ok => exact finished_unplaced hr hr' hparse options

/-! ### Layout -/

lemma sourceRows_of_tokenize {source source' file file' : String} {ts ts' : List Token}
    (h : tokenize source file = .ok ts) (h' : tokenize source' file' = .ok ts')
    (hrows : ts.map row = ts'.map row) :
    sourceRows source = sourceRows source' := by
  rw [Token.tokenize_ok h, Token.tokenize_ok h', hrows]

/-- Layout is irrelevant. A blank that is followed by more blanks and block comments may be put in
behind every token and in front of the source, and in fact at the end of every piece that is no
line comment, and no token changes. Two sources with the same tokens are read as the same program or
fail with the same message; they compile to the same page, and their diagnostics only differ in
places. -/
theorem layout_irrelevant :
    (∀ source file raw ps qs b w, Token.rawTokens source file = .ok raw →
      (Token.scan source.toList).1 = ps ++ qs →
      (∀ p ∈ ps.getLast?, ¬ p.IsLineComment) → Token.isGapBlank b → Token.Filler w →
      let source' := String.ofList (Token.textOf ps ++ (b :: w ++ Token.textOf qs))
      (∃ raw', Token.rawTokens source' file = .ok raw' ∧
        raw'.map Token.row = raw.map Token.row) ∧
      ∃ ts ts', Token.tokenize source file = .ok ts ∧ Token.tokenize source' file = .ok ts' ∧
        ts'.map Token.row = ts.map Token.row) ∧
    ∀ source source' file file' ts ts', Token.tokenize source file = .ok ts →
      Token.tokenize source' file' = .ok ts' → ts.map Token.row = ts'.map Token.row →
      Syntax.SameOutcome (Program.parse source file) (Program.parse source' file') ∧
      (∀ options, SameCompiled (compile source file options) (compile source' file' options)) ∧
      ∀ p p', Program.parse source file = .ok p → Program.parse source' file' = .ok p' →
        p.typeDiagnostics.map Diagnostic.unplaced =
          p'.typeDiagnostics.map Diagnostic.unplaced := by
  constructor
  · intro source file raw ps qs b w hraw hps hline hb hw source'
    obtain ⟨raw', hraw', hrows⟩ := Token.rawTokens_insert hraw hps hline hb hw
    refine ⟨⟨raw', hraw', hrows⟩, Token.pruneNewlines raw, Token.pruneNewlines raw', ?_, ?_, ?_⟩
    · rw [Token.tokenize, hraw, Except.map]
    · rw [Token.tokenize, hraw', Except.map]
    · rw [Token.pruneNewlines_rows, Token.pruneNewlines_rows, hrows]
  · intro source source' file file' ts ts' h h' hrows
    have hsource := sourceRows_of_tokenize h h' hrows
    have hparse := Syntax.parse_rows hsource file file'
    refine ⟨hparse, compile_rows hsource file file', fun p p' hp hp' => ?_⟩
    rw [hp, hp'] at hparse
    exact typeDiagnostics_of_parse hp hp' hparse

/-- The comment has a line end and a slash in it. -/
theorem layout_irrelevant_comment :
    ∃ ts ts', Token.tokenize "a<b" "" = .ok ts ∧
      Token.tokenize (String.ofList ("a".toList ++ (' ' :: "/*\n/*/".toList ++ "<b".toList))) "" =
        .ok ts' ∧ ts'.map Token.row = ts.map Token.row ∧
      ∀ options, SameCompiled (compile "a<b" "" options)
        (compile (String.ofList ("a".toList ++ (' ' :: "/*\n/*/".toList ++ "<b".toList))) ""
          options) := by
  have hscan : (Token.scan "a<b".toList).2 = none := by decide +kernel
  obtain ⟨raw, hraw, -⟩ := Token.rawTokens_of_scan hscan ""
  have hbody : ¬ ['*', '/'] <:+: ['\n', '/'] := by decide
  have hfiller : Token.Filler "/*\n/*/".toList := Token.Filler.comment hbody .nil
  obtain ⟨-, ts, ts', hts, hts', hrows⟩ := layout_irrelevant.1 "a<b" "" raw
    [⟨['a'], .token .identifier "a" false⟩]
    [⟨['<'], .token (.symbol .lt) "<" false⟩, ⟨['b'], .token .identifier "b" false⟩]
    ' ' "/*\n/*/".toList hraw (by decide +kernel) (by simp [Token.Piece.IsLineComment]) rfl hfiller
  exact ⟨ts, ts', hts, hts', hrows,
    (layout_irrelevant.2 _ _ _ _ ts ts' hts hts' hrows.symm).2.1⟩

end UiScript
