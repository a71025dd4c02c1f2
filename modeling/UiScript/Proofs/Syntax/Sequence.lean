import Mathlib.Algebra.GroupWithZero.Nat
import UiScript.Proofs.Syntax.Joining
import UiScript.Proofs.Token.Lines

/-!
# Sources one after another

Two sources with a line end in between make up the statements of the first one and then those of
the second one, although nothing marks where the second one starts.
-/

namespace UiScript.Syntax

open List

open Node (unplaced)

open Program (parse ofTokens)

open Token (Row scan rowsOf pruneRows endRow tokenize sourceRows)

/-! ### The tokens of the parts and of the whole -/

variable {source file : String} {p : Program}

lemma sourceRows_eq (h : (scan source.toList).2 = none) :
    sourceRows source =
      .ok (pruneRows (rowsOf (scan source.toList).1) ++ [endRow]) := by
  rcases hs : scan source.toList with ⟨pieces, fault⟩
  obtain rfl : fault = none := by simpa [hs] using h
  simp [sourceRows, hs, Token.pruneRows_end]

lemma scan_joined {source₁ : String} (h₁ : (scan source₁.toList).2 = none) (source₂ : String) :
    (scan (source₁ ++ "\n" ++ source₂).toList).2 = (scan source₂.toList).2 ∧
      rowsOf (scan (source₁ ++ "\n" ++ source₂).toList).1 =
        rowsOf (scan source₁.toList).1 ++
          Token.newlineRow :: rowsOf (scan source₂.toList).1 := by
  have htext : (source₁ ++ "\n" ++ source₂).toList = source₁.toList ++ '\n' :: source₂.toList := by
    simp
  rw [htext, Token.scan_append_newline h₁]
  simp [rowsOf, Token.Piece.row?, Token.newlineRow]

/-- A source that was read was cut into tokens, and these are a program. -/
lemma tokenize_of_parse (h : parse source file = .ok p) :
    ∃ ts, tokenize source file = .ok ts ∧ ofTokens ts file = .ok p := by
  unfold parse at h
  cases ht : tokenize source file with
  | error => simp [ht] at h
  | ok ts => exact ⟨ts, rfl, by simpa [ht] using h⟩

/-- A source without a fault is cut into tokens under any name. -/
lemma tokenize_of_scan (h : (scan source.toList).2 = none) (file : String) :
    ∃ ts, parse source file = ofTokens ts file ∧
      ts.map Token.row =
        pruneRows (rowsOf (scan source.toList).1) ++ [endRow] := by
  have hrows := sourceRows_eq h
  cases ht : tokenize source file with
  | error => cases hrows.symm.trans (Token.tokenize_error ht)
  | ok ts =>
    refine ⟨ts, by simp [parse, ht], ?_⟩
    simpa using (Token.tokenize_ok ht).symm.trans hrows

lemma rows_of_parse (h : parse source file = .ok p) :
    ∃ ts e, ofTokens (ts ++ [e]) file = .ok p ∧ e.row = endRow ∧
      (scan source.toList).2 = none ∧
      ts.map Token.row = pruneRows (rowsOf (scan source.toList).1) := by
  obtain ⟨ts, ht, hp⟩ := tokenize_of_parse h
  have hrows := Token.tokenize_ok ht
  have hscan : (scan source.toList).2 = none := by
    rcases hs : scan source.toList with ⟨pieces, fault⟩
    cases fault with
    | none => rfl
    | some => simp [sourceRows, hs] at hrows
  rw [sourceRows_eq hscan] at hrows
  obtain ⟨us, es, rfl, hus, hes⟩ := map_eq_append_iff.mp (Except.ok.inj hrows).symm
  obtain ⟨e, es', rfl, he, hes'⟩ := map_eq_cons_iff.mp hes
  obtain rfl : es' = [] := by simpa using hes'
  exact ⟨us, e, hp, he, hscan, hus⟩

lemma not_closer_of_ofTokens {t : Token} {ts : List Token}
    (h : ofTokens (t :: ts) file = .ok p) : t.kind.isCloser = false := by
  obtain ⟨c, d, hc, hs, hd, -⟩ := statements_of_ofTokens h
  by_contra hclose
  have hinside : isSeparator t.kind = false := by
    rcases startsNothing_cases (k := t.kind) (by simp_all [startsNothing]) with
      hk | hk | hk | hk | hk <;> rw [hk] <;> rfl
  have hskip := Cursor.skip_tokens [] (c := c) hc (by simp) hinside
  have hstart := startsNothing_of_statements hs hd
  rw [(List.cons.inj hskip).1] at hstart
  simp_all [startsNothing]

/-! ### The statements of the parts and of the whole -/

lemma parse_append {source₁ source₂ file₁ file₂ : String} {p₁ p₂ : Program}
    (h₁ : parse source₁ file₁ = .ok p₁) (h₂ : parse source₂ file₂ = .ok p₂)
    (file : String) :
    ∃ p, parse (source₁ ++ "\n" ++ source₂) file = .ok p ∧
      p.body.map unplaced = p₁.body.map unplaced ++ p₂.body.map unplaced := by
  obtain ⟨ts₁, e₁, hp₁, he₁, hscan₁, hrows₁⟩ := rows_of_parse h₁
  obtain ⟨ts₂, e₂, hp₂, he₂, hscan₂, hrows₂⟩ := rows_of_parse h₂
  obtain ⟨hfault, hrows⟩ := scan_joined hscan₁ source₂
  obtain ⟨ts, hparse, hts⟩ := tokenize_of_scan (hfault.trans hscan₂) file
  have hraw := Token.rowsOf_scan source₂.toList
  have hclose : ∀ r ∈ (pruneRows (rowsOf (scan source₂.toList).1)).head?,
      r.kind.isCloser = false := by
    intro r hr
    rw [← hrows₂, head?_map] at hr
    obtain ⟨t, ht, rfl⟩ := Option.map_eq_some_iff.mp hr
    obtain ⟨us, rfl⟩ := head?_eq_some_iff.mp ht
    exact not_closer_of_ofTokens hp₂
  obtain ⟨lead, sep, rest, hlead, hjoin, hlead_eq, hsep_eq⟩ :=
    Token.pruneRows_joined (rowsOf (scan source₁.toList).1)
      (fun r hr => (hraw r hr).2) hclose
  have hjoined : Joined ts₁ (ts₂ ++ [e₂]) ts :=
    { lead, sep, rest
      rows₂ := by rw [map_append, hrows₂, hlead, map_singleton, he₂, append_assoc]
      rows := by rw [hts, hrows, hjoin, hrows₁, append_assoc, append_assoc]
      lead_eq := hlead_eq
      sep_eq := by
        refine hsep_eq.imp_right (And.imp_right fun ⟨r, hr, ho⟩ => ?_)
        rw [← hrows₁, getLast?_map] at hr
        obtain ⟨t, ht, rfl⟩ := Option.map_eq_some_iff.mp hr
        exact ⟨t, ht, ho⟩ }
  have hinside : ∀ t ∈ ts₁, t.kind ≠ .endOfFile := by
    intro t ht
    have hrow : t.row ∈ pruneRows (rowsOf (scan source₁.toList).1) :=
      hrows₁ ▸ mem_map_of_mem ht
    exact (Token.rowsOf_scan _ _ (Token.mem_pruneRows hrow)).1
  rw [hparse]
  exact ofTokens_joined hjoined he₁ hinside hp₁ hp₂ file

/-- A source makes up the same statements under any name. -/
lemma parse_file (h : parse source file = .ok p) (file' : String) :
    ∃ p', parse source file' = .ok p' ∧
      p'.body.map unplaced = p.body.map unplaced := by
  have hsame : SameOutcome (parse source file') (parse source file) :=
    parse_rows rfl file' file
  rw [h] at hsame
  cases h' : parse source file' with
  | error =>
    rw [h'] at hsame
    exact hsame.elim
  | ok p' =>
    rw [h'] at hsame
    exact ⟨p', rfl, hsame⟩

lemma parse_empty (file : String) : ∃ p, parse "" file = .ok p ∧ p.body = [] := by
  have hscan : scan "".toList = ([], none) := by rw [String.toList_empty, scan]
  obtain ⟨ts, hparse, hts⟩ := tokenize_of_scan (congrArg Prod.snd hscan) file
  rw [hscan] at hts
  obtain ⟨e, es, rfl, he, hes⟩ := map_eq_cons_iff.mp hts
  obtain rfl : es = [] := by simpa using hes
  rw [hparse]
  exact ofTokens_of_statements (.nil _) (congrArg Row.kind he) (by simp)

lemma parse_lines {sources : List String} {ps : List Program}
    (h : Forall₂ (fun source p => ∃ file, parse source file = .ok p) sources ps)
    (file : String) :
    ∃ p, parse ("\n".intercalate sources) file = .ok p ∧
      p.body.map unplaced = ps.flatMap fun p => p.body.map unplaced := by
  induction h with
  | nil =>
    obtain ⟨p, hp, hbody⟩ := parse_empty file
    exact ⟨p, hp, by simp [hbody]⟩
  | @cons source p sources ps hp hrest ih =>
    obtain ⟨file₁, hp⟩ := hp
    obtain ⟨q, hq, hbody⟩ := ih
    cases sources with
    | nil =>
      cases hrest
      simpa using parse_file hp file
    | cons =>
      obtain ⟨r, hr, hr'⟩ := parse_append hp hq file
      exact ⟨r, by simpa using hr, by rw [hr', hbody, flatMap_cons]⟩

/-- Sources that can be read on their own can be read one after another, with a line end in
between, and make up their statements in this order. -/
theorem parse_newline_joined (file : String) :
    (∀ source₁ source₂ file₁ file₂ p₁ p₂,
      parse source₁ file₁ = .ok p₁ → parse source₂ file₂ = .ok p₂ →
      ∃ p, parse (source₁ ++ "\n" ++ source₂) file = .ok p ∧
        p.body.map Node.unplaced = p₁.body.map Node.unplaced ++ p₂.body.map Node.unplaced) ∧
    ∀ sources ps,
      List.Forall₂ (fun source p => ∃ file, parse source file = .ok p) sources ps →
      ∃ p, parse ("\n".intercalate sources) file = .ok p ∧
        (p.body.map Node.unplaced = ps.flatMap fun p => p.body.map Node.unplaced) ∧
        p.body.length = (ps.map fun p => p.body.length).sum := by
  refine ⟨fun _ _ _ _ _ _ h₁ h₂ => parse_append h₁ h₂ file, fun sources ps h => ?_⟩
  obtain ⟨p, hp, hbody⟩ := parse_lines h file
  refine ⟨p, hp, hbody, ?_⟩
  have hlength := congrArg List.length hbody
  simpa [List.length_flatMap] using hlength

/-- The second line would go on with the call of the first one, were it on the same line. -/
theorem parse_newline_joined_call :
    (∃ p, parse "let a = f" "" = .ok p) ∧ (∃ p, parse "(b)\n" "" = .ok p) ∧
      ∃ p, parse ("let a = f" ++ "\n" ++ "(b)\n") "" = .ok p ∧ p.body.length = 2 := by
  have hparses (source : String) (n : Nat)
      (h : (parse source "").toOption.map (fun p => p.body.length) = some n) :
      ∃ p, parse source "" = .ok p ∧ p.body.length = n :=
    exists_of_toOption h
  obtain ⟨p₁, h₁, hn₁⟩ := hparses "let a = f" 1 (by decide +kernel)
  obtain ⟨p₂, h₂, hn₂⟩ := hparses "(b)\n" 1 (by decide +kernel)
  refine ⟨⟨p₁, h₁⟩, ⟨p₂, h₂⟩, ?_⟩
  obtain ⟨p, hp, hbody⟩ := (parse_newline_joined "").1 _ _ _ _ _ _ h₁ h₂
  refine ⟨p, hp, ?_⟩
  have hlength := congrArg List.length hbody
  simp only [List.length_append, List.length_map] at hlength
  omega

end UiScript.Syntax
