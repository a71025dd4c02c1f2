import Mathlib.Data.List.Chain
import UiScript.Proofs.Syntax.Cursor

/-!
# The segments of a template

The text of a template splits into literal texts and fragments in just one way: each fragment stands
between `${` and the first brace that balances it, and a literal text is all that stands between two
fragments. Where a fragment is opened and never closed, the text behind it belongs to no segment.
-/

namespace UiScript.Syntax

open List

/-! ### Braces -/

/-- The braces of a text are balanced, but for some that were opened before it, and only its end
closes all of these. -/
@[mk_iff]
structure Nested (depth : Nat) (cs : List Char) : Prop where
  count_eq : cs.count '\x7d' = cs.count '\x7b' + depth
  count_le (i : Nat) : (cs.take i).count '\x7d' ≤ (cs.take i).count '\x7b' + depth

variable {depth : Nat} {cs literal fragment rest text : List Char} {segs : List Segment}
  {tail : Option (List Char)} {d : Cursor}

lemma nested_nil_iff : Nested depth [] ↔ depth = 0 :=
  ⟨fun h => by simpa using h.count_eq.symm, fun h => ⟨by simp [h], by simp⟩⟩

lemma nested_cons_iff {c : Char} : Nested depth (c :: cs) ↔
    (c :: cs).count '\x7d' = (c :: cs).count '\x7b' + depth ∧
      ∀ i, (c :: cs.take i).count '\x7d' ≤ (c :: cs.take i).count '\x7b' + depth := by
  refine ⟨fun h => ⟨h.count_eq, fun i => h.count_le (i + 1)⟩, fun h => ⟨h.1, fun i => ?_⟩⟩
  cases i with
  | zero => simp
  | succ i => exact h.2 i

lemma nested_open : Nested depth ('\x7b' :: cs) ↔ Nested (depth + 1) cs := by
  rw [nested_cons_iff, nested_iff]
  simp [Nat.add_assoc, Nat.add_comm 1]

lemma nested_close : Nested depth ('\x7d' :: cs) ↔ ∃ d, depth = d + 1 ∧ Nested d cs := by
  cases depth with
  | zero =>
    have hzero := fun h : Nested 0 ('\x7d' :: cs) => (nested_cons_iff.mp h).2 0
    simpa using hzero
  | succ =>
    rw [nested_cons_iff]
    simp [nested_iff, ← Nat.add_assoc]

lemma nested_other {c : Char} (hopen : c ≠ '\x7b') (hclose : c ≠ '\x7d') :
    Nested depth (c :: cs) ↔ Nested depth cs := by
  rw [nested_cons_iff, nested_iff]
  simp [hopen, hclose]

/-- The brace that closes what is open is the first one that balances it. -/
lemma holeLength?_eq_some {n : Nat} :
    holeLength? (depth + 1) cs = some n ↔
      ∃ fragment after, cs = fragment ++ '\x7d' :: after ∧ Nested depth fragment ∧
        n = fragment.length + 1 := by
  induction cs generalizing depth n with
  | nil => simp [holeLength?]
  | cons c cs ih =>
    have hcons : (∃ fragment after, c :: cs = fragment ++ '\x7d' :: after ∧
        Nested depth fragment ∧ n = fragment.length + 1) ↔ (c = '\x7d' ∧ depth = 0 ∧ n = 1) ∨
          ∃ fragment after, cs = fragment ++ '\x7d' :: after ∧ Nested depth (c :: fragment) ∧
            n = fragment.length + 1 + 1 := by
      constructor
      · rintro ⟨_ | ⟨d, fragment⟩, after, heq, hnested, rfl⟩ <;> cases heq
        · exact .inl ⟨rfl, nested_nil_iff.mp hnested, rfl⟩
        · exact .inr ⟨fragment, after, rfl, hnested, rfl⟩
      · rintro (⟨rfl, rfl, rfl⟩ | ⟨fragment, after, rfl, hnested, rfl⟩)
        · exact ⟨[], cs, rfl, nested_nil_iff.mpr rfl, rfl⟩
        · exact ⟨c :: fragment, after, rfl, hnested, rfl⟩
    have hmore {d : Nat} : (holeLength? (d + 1) cs).map (· + 1) = some n ↔
        ∃ fragment after, cs = fragment ++ '\x7d' :: after ∧ Nested d fragment ∧
          n = fragment.length + 1 + 1 := by
      rw [Option.map_eq_some_iff]
      constructor
      · rintro ⟨k, hk, rfl⟩
        obtain ⟨fragment, after, heq, hnested, rfl⟩ := ih.mp hk
        exact ⟨fragment, after, heq, hnested, rfl⟩
      · rintro ⟨fragment, after, heq, hnested, rfl⟩
        exact ⟨_, ih.mpr ⟨fragment, after, heq, hnested, rfl⟩, rfl⟩
    rw [hcons, holeLength?]
    by_cases hopen : c = '\x7b'
    · subst hopen
      simp [hmore, nested_open]
    by_cases hclose : c = '\x7d'
    · subst hclose
      cases depth with
      | zero => simp [nested_close, eq_comm]
      | succ => simp [hmore, nested_close]
    · simp [hmore, hopen, hclose, nested_other hopen hclose]

/-! ### Splits -/

/-- A segment as it stands between the back quotes. -/
def Segment.spelling : Segment → List Char
  | .text literal => literal
  | .hole fragment => '$' :: '\x7b' :: (fragment ++ ['\x7d'])

def Segment.isText : Segment → Bool
  | .text _ => true
  | .hole _ => false

/-- A text splits into segments and, if its last fragment is not closed, what stands behind the mark
of that. -/
structure Splits (text : List Char) (segs : List Segment) (tail : Option (List Char)) : Prop where
  text_eq : text = segs.flatMap Segment.spelling ++ tail.elim [] fun rest => '$' :: '\x7b' :: rest
  nested : ∀ fragment, .hole fragment ∈ segs → Nested 0 fragment
  literal : ∀ literal, .text literal ∈ segs → literal ≠ [] ∧ ¬ ['$', '\x7b'] <:+: literal
  alternate : segs.IsChain fun a b => ¬ (a.isText ∧ b.isText)
  unclosed : ∀ rest ∈ tail, ∀ fragment after, rest = fragment ++ '\x7d' :: after →
    ¬ Nested 0 fragment

lemma literalSegment_eq (h : literal ≠ []) : literalSegment literal.reverse = [.text literal] := by
  simp [literalSegment, h]

lemma segments_close (h : Nested 0 fragment) (acc after : List Char) :
    segments acc ('$' :: '\x7b' :: (fragment ++ '\x7d' :: after)) =
      (literalSegment acc ++ .hole fragment :: (segments [] after).1, (segments [] after).2) := by
  have hn : holeLength? 1 (fragment ++ '\x7d' :: after) = some (fragment.length + 1) :=
    holeLength?_eq_some.mpr ⟨fragment, after, rfl, h, rfl⟩
  rw [segments, hn]
  simp

lemma segments_unclosed
    (h : ∀ fragment after, rest = fragment ++ '\x7d' :: after → ¬ Nested 0 fragment)
    (acc : List Char) : segments acc ('$' :: '\x7b' :: rest) = (literalSegment acc, true) := by
  rw [segments]
  cases hn : holeLength? 1 rest with
  | none => rfl
  | some =>
    obtain ⟨fragment, after, heq, hnested, -⟩ := holeLength?_eq_some.mp hn
    exact absurd hnested (h fragment after heq)

/-- A literal text is passed as a whole. -/
lemma segments_literal (h : ¬ ['$', '\x7b'] <:+: literal) (hrest : rest.head? ≠ some '\x7b')
    (acc : List Char) :
    segments acc (literal ++ rest) = segments (literal.reverse ++ acc) rest := by
  induction literal generalizing acc with
  | nil => rfl
  | cons c literal ih =>
    have hmark : ∀ cs, ¬ (c = '$' ∧ literal ++ rest = '\x7b' :: cs) := by
      rintro cs ⟨rfl, heq⟩
      cases literal with
      | nil => exact hrest (by rw [nil_append] at heq; rw [heq]; rfl)
      | cons d literal =>
        cases heq
        exact h ⟨[], literal, rfl⟩
    rw [cons_append, segments, ih (fun hin => h (infix_cons hin))]
    · simp
    · exact fun cs hc heq => hmark cs ⟨hc, heq⟩

lemma Splits.of_cons {seg : Segment} (h : Splits text (seg :: segs) tail) :
    ∃ rest, text = seg.spelling ++ rest ∧ Splits rest segs tail := by
  refine ⟨_, ?_, rfl, fun f hf => h.nested f (mem_cons_of_mem _ hf),
    fun l hl => h.literal l (mem_cons_of_mem _ hl), (isChain_cons.mp h.alternate).2,
    h.unclosed⟩
  rw [h.text_eq, flatMap_cons, append_assoc]

/-- There is at most one way to split a text, and it is found from the left to the right. -/
lemma Splits.segments_eq (h : Splits text segs tail) (acc : List Char)
    (hacc : acc = [] ∨ ∀ seg ∈ segs.head?, seg.isText = false) :
    segments acc text = (literalSegment acc ++ segs, tail.isSome) := by
  induction segs generalizing text acc with
  | nil =>
    rw [h.text_eq, append_nil]
    cases tail with
    | none => exact segments.eq_1 acc
    | some rest => exact segments_unclosed (h.unclosed rest rfl) acc
  | cons seg segs ih =>
    obtain ⟨rest, rfl, hrest⟩ := h.of_cons
    cases seg with
    | hole fragment =>
      have hspelling : (Segment.hole fragment).spelling ++ rest =
          '$' :: '\x7b' :: (fragment ++ '\x7d' :: rest) := by
        simp [Segment.spelling]
      rw [hspelling, segments_close (h.nested fragment mem_cons_self), ih hrest [] (.inl rfl)]
      rfl
    | text literal =>
      obtain ⟨hne, hfree⟩ := h.literal literal mem_cons_self
      have hstart : ∀ seg ∈ segs.head?, seg.isText = false := fun seg hseg => by
        simpa [Segment.isText] using (isChain_cons.mp h.alternate).1 seg hseg
      have hbrace : rest.head? ≠ some '\x7b' := by
        rw [hrest.text_eq]
        rcases segs with _ | ⟨_ | fragment, segs⟩
        · cases tail <;> simp
        · cases hstart _ rfl
        · simp [Segment.spelling]
      obtain rfl : acc = [] := hacc.resolve_right fun hhead => by cases hhead _ rfl
      rw [Segment.spelling, segments_literal hfree hbrace, append_nil,
        ih hrest literal.reverse (.inr hstart), literalSegment_eq hne]
      rfl

/-- A text up to the first mark that opens a fragment. -/
lemma exists_literal (text : List Char) : ¬ ['$', '\x7b'] <:+: text ∨
    ∃ literal rest, text = literal ++ '$' :: '\x7b' :: rest ∧ ¬ ['$', '\x7b'] <:+: literal := by
  induction text with
  | nil => exact .inl (by simp)
  | cons c text ih =>
    by_cases hmark : ['$', '\x7b'] <+: c :: text
    · obtain ⟨rest, hrest⟩ := hmark
      exact .inr ⟨[], rest, hrest.symm, by simp⟩
    rcases ih with hfree | ⟨literal, rest, rfl, hfree⟩
    · exact .inl fun h => (infix_cons_iff.mp h).elim hmark hfree
    · refine .inr ⟨c :: literal, rest, rfl, fun h => ?_⟩
      refine (infix_cons_iff.mp h).elim (fun h => hmark ?_) hfree
      exact h.trans (prefix_append (c :: literal) _)

/-- A literal text, unless it is empty, in front of what starts with a fragment or ends. -/
lemma Splits.behind (hfree : ¬ ['$', '\x7b'] <:+: literal)
    (hstart : ∀ seg ∈ segs.head?, seg.isText = false) (h : Splits rest segs tail) :
    Splits (literal ++ rest) (literalSegment literal.reverse ++ segs) tail := by
  by_cases hne : literal = []
  · subst hne
    exact h
  rw [literalSegment_eq hne]
  refine ⟨?_, fun f hf => h.nested f (by simpa using hf), fun l hl => ?_, ?_, h.unclosed⟩
  · rw [h.text_eq]
    simp [Segment.spelling]
  · rcases mem_cons.mp hl with hl | hl
    · cases hl
      exact ⟨hne, hfree⟩
    · exact h.literal l hl
  · refine isChain_cons.mpr ⟨fun seg hseg => ?_, h.alternate⟩
    simp [hstart seg hseg]

lemma exists_splits (text : List Char) : ∃ segs tail, Splits text segs tail := by
  induction hlen : text.length using Nat.strongRecOn generalizing text with
  | _ len ih =>
    have hnil : Splits [] [] none := ⟨rfl, by simp, by simp, .nil, by simp⟩
    rcases exists_literal text with hfree | ⟨literal, rest, rfl, hfree⟩
    · have h := hnil.behind hfree (by simp)
      rw [append_nil] at h
      exact ⟨_, _, h⟩
    cases hn : holeLength? 1 rest with
    | none =>
      have h : Splits ('$' :: '\x7b' :: rest) [] (some rest) := by
        refine ⟨rfl, by simp, by simp, .nil, fun r hr fragment after heq hnested => ?_⟩
        cases hr
        rw [holeLength?_eq_some.mpr ⟨fragment, after, heq, hnested, rfl⟩] at hn
        cases hn
      exact ⟨_, _, h.behind hfree (by simp)⟩
    | some =>
      obtain ⟨fragment, after, rfl, hnested, -⟩ := holeLength?_eq_some.mp hn
      obtain ⟨segs, tail, hafter⟩ := ih after.length (by simp at hlen; omega) after rfl
      have h : Splits ('$' :: '\x7b' :: (fragment ++ '\x7d' :: after)) (.hole fragment :: segs)
          tail := by
        refine ⟨?_, fun f hf => ?_, fun l hl => hafter.literal l (by simpa using hl), ?_,
          hafter.unclosed⟩
        · rw [hafter.text_eq]
          simp [Segment.spelling]
        · rcases mem_cons.mp hf with hf | hf
          · cases hf
            exact hnested
          · exact hafter.nested f hf
        · exact isChain_cons.mpr ⟨fun _ _ => by simp [Segment.isText], hafter.alternate⟩
      exact ⟨_, _, h.behind hfree fun seg hseg => by cases hseg; rfl⟩

lemma segments_splits (text : List Char) :
    ∃ tail, Splits text (segments [] text).1 tail ∧ (segments [] text).2 = tail.isSome := by
  obtain ⟨segs, tail, h⟩ := exists_splits text
  have heq : segments [] text = (segs, tail.isSome) := h.segments_eq [] (.inl rfl)
  exact ⟨tail, by rwa [heq], by rw [heq]⟩

lemma segments_spelling (h : (segments [] text).2 = false) :
    (segments [] text).1.flatMap Segment.spelling = text := by
  obtain ⟨tail, hsplits, htail⟩ := segments_splits text
  obtain rfl : tail = none := by simpa [h] using htail.symm
  simpa using hsplits.text_eq.symm

/-- A fragment with its marks is part of the template. -/
lemma infix_of_hole (h : .hole fragment ∈ (segments [] text).1) :
    (Segment.hole fragment).spelling <:+: text := by
  obtain ⟨tail, hsplits, -⟩ := segments_splits text
  obtain ⟨before, after, heq⟩ := append_of_mem h
  rw [hsplits.text_eq, heq]
  exact ⟨before.flatMap Segment.spelling, _, by simp; rfl⟩

/-- A fragment is shorter than its template by its three marks at least. -/
lemma length_fragment (h : .hole fragment ∈ (segments [] text).1) :
    fragment.length + 3 ≤ text.length := by
  have hle := (infix_of_hole h).length_le
  simp only [Segment.spelling, length_append, length_cons, length_nil] at hle
  omega

lemma hasHole_iff : hasHole text ↔ ['$', '\x7b'] <:+: text := by
  fun_induction hasHole text with
  | case1 rest => simpa using (prefix_append ['$', '\x7b'] rest).isInfix
  | case2 c text hne ih =>
    rw [ih, infix_cons_iff]
    refine ⟨.inr, fun h => h.resolve_left ?_⟩
    rintro ⟨rest, heq⟩
    cases heq
    exact hne rest rfl rfl
  | case3 => simp

/-! ### Reading by segments -/

lemma bind_eq_error {α β : Type} {m : Parse α} {f : α → Parse β} {c : Cursor} {e : SyntaxFault} :
    (m >>= f) c = .error e d ↔ m c = .error e d ∨ ∃ a c', m c = .ok a c' ∧ f a c' = .error e d := by
  rw [bind_run]
  cases m c <;> simp

/-- The parts that some segments of a template are read as: a literal text stands for itself, and a
fragment for the expression in it. -/
inductive Fills (r : Rules) (template : Token) :
    Cursor → List Segment → List (Part Node) → Cursor → Prop
  | nil {c : Cursor} : Fills r template c [] [] c
  | text {c d : Cursor} {literal : List Char} {segs : List Segment} {parts : List (Part Node)}
      (h : Fills r template c segs parts d) :
      Fills r template c (.text literal :: segs) (.text (String.ofList literal) :: parts) d
  | hole {c c' d : Cursor} {fragment : List Char} {e : Node} {segs : List Segment}
      {parts : List (Part Node)}
      (he : embedded r (String.ofList fragment) template c = .ok e c')
      (h : Fills r template c' segs parts d) :
      Fills r template c (.hole fragment :: segs) (.hole e :: parts) d

/-- The first fragment that cannot be read. -/
def FragmentFails (r : Rules) (template : Token) (c : Cursor) (segs : List Segment)
    (f : SyntaxFault) (d : Cursor) : Prop :=
  ∃ before fragment after parts c', segs = before ++ .hole fragment :: after ∧
    Fills r template c before parts c' ∧
      embedded r (String.ofList fragment) template c' = .error f d

section

variable {r : Rules} {template : Token} {c : Cursor}

lemma templateParts_eq_ok {parts : List (Part Node)} :
    templateParts r template segs c = .ok parts d ↔ Fills r template c segs parts d := by
  constructor
  · intro h
    induction segs generalizing c parts with
    | nil =>
      cases h
      exact .nil
    | cons seg segs ih =>
      cases seg with
      | text =>
        obtain ⟨more, c', hmore, h⟩ := bind_eq_ok.mp h
        cases h
        exact .text (ih hmore)
      | hole =>
        obtain ⟨e, c', he, h⟩ := bind_eq_ok.mp h
        obtain ⟨more, c', hmore, h⟩ := bind_eq_ok.mp h
        cases h
        exact .hole he (ih hmore)
  · intro h
    induction h with
    | nil => rfl
    | text _ ih => exact bind_ok ih
    | hole he _ ih => exact (bind_ok he).trans (bind_ok ih)

lemma templateParts_eq_error {f : SyntaxFault} :
    templateParts r template segs c = .error f d ↔ FragmentFails r template c segs f d := by
  constructor
  · intro h
    induction segs generalizing c with
    | nil => cases h
    | cons seg segs ih =>
      cases seg with
      | text =>
        rcases bind_eq_error.mp h with h | ⟨_, _, _, h⟩
        · obtain ⟨before, fragment, after, parts, c', rfl, hbefore, he⟩ := ih h
          exact ⟨_ :: before, fragment, after, _, c', rfl, .text hbefore, he⟩
        · cases h
      | hole fragment =>
        rcases bind_eq_error.mp h with h | ⟨e, c', he, h⟩
        · exact ⟨[], fragment, segs, [], c, rfl, .nil, h⟩
        rcases bind_eq_error.mp h with h | ⟨_, _, _, h⟩
        · obtain ⟨before, fragment, after, parts, c', rfl, hbefore, hf⟩ := ih h
          exact ⟨_ :: before, fragment, after, _, c', rfl, .hole he hbefore, hf⟩
        · cases h
  · rintro ⟨before, fragment, after, parts, c', rfl, hbefore, he⟩
    induction hbefore with
    | nil => exact bind_error he
    | text _ ih => exact bind_error (ih he)
    | hole he' _ ih => exact (bind_ok he').trans (bind_error (ih he))

lemma stringLiteral_run (htemplate : c.current.template) (hhole : hasHole c.current.value.toList) :
    stringLiteral r c =
      (templateParts r c.current (segments [] c.current.value.toList).1 >>= fun parts =>
        if (segments [] c.current.value.toList).2 then throw (.unclosedHole c.current.place)
        else return .template c.current.place parts) c.next := by
  unfold stringLiteral
  rw [bind_ok (advance_run c)]
  simp only [htemplate, hhole, Bool.and_self, if_true]
  rfl

end

/-- A template is read by the one way to split its text. It becomes its literal texts and the
expressions in its fragments, in their order. Otherwise the first fragment that is not an expression
is at fault or, if all are, the mark of a fragment that does not end. -/
theorem stringLiteral_by_segments (r : Rules) (c : Cursor) (htemplate : c.current.template)
    (hmark : ['$', '\x7b'] <:+: c.current.value.toList) :
    ∃ segs tail, Splits c.current.value.toList segs tail ∧
      (∀ segs' tail', Splits c.current.value.toList segs' tail' → segs' = segs ∧ tail' = tail) ∧
      (∀ n d, stringLiteral r c = .ok n d ↔
        tail = none ∧ ∃ parts, Fills r c.current c.next segs parts d ∧
          n = .template c.current.place parts) ∧
      (∀ f d, stringLiteral r c = .error f d ↔
        FragmentFails r c.current c.next segs f d ∨
          tail.isSome ∧ (∃ parts, Fills r c.current c.next segs parts d) ∧
            f = .unclosedHole c.current.place) := by
  obtain ⟨segs, tail, hsplits⟩ := exists_splits c.current.value.toList
  have heq : segments [] c.current.value.toList = (segs, tail.isSome) :=
    hsplits.segments_eq [] (.inl rfl)
  have hrun := stringLiteral_run (r := r) htemplate (hasHole_iff.mpr hmark)
  rw [heq] at hrun
  refine ⟨segs, tail, hsplits, fun segs' tail' h => ?_, fun n d => ?_, fun f d => ?_⟩
  · obtain rfl : segs' = segs :=
      congrArg Prod.fst ((h.segments_eq [] (.inl rfl)).symm.trans heq)
    have htail := List.append_cancel_left (h.text_eq.symm.trans hsplits.text_eq)
    refine ⟨rfl, ?_⟩
    cases tail <;> cases tail' <;> simp_all
  · rw [hrun, bind_eq_ok]
    simp only [templateParts_eq_ok]
    cases tail <;> simp [eq_comm, and_comm]
  · rw [hrun, bind_eq_error, templateParts_eq_error]
    simp only [templateParts_eq_ok]
    cases tail <;> simp [eq_comm, and_comm]

/-- A template whose fragment is a name is read with the name as a hole, and one whose fragment does
not end is at fault. -/
theorem stringLiteral_by_segments_closed :
    let place : Place := ⟨1, 1, "main"⟩
    let c (value : String) : Cursor := ⟨⟨.string, value, place, true⟩, [], "main", []⟩
    stringLiteral (rules 1) (c "a$\x7bx\x7d") =
      .ok (.template place [.text "a", .hole (.identifier place "x")])
        { c "a$\x7bx\x7d" with fragments := [2] } ∧
    stringLiteral (rules 0) (c "a$$\x7b\x7b\x7d") =
      .error (.unclosedHole place) (c "a$$\x7b\x7b\x7d") := by
  intro place c
  constructor
  · have hsegments : segments [] "a$\x7bx\x7d".toList = ([.text ['a'], .hole ['x']], false) := by
      simp [segments, holeLength?, literalSegment]
    obtain ⟨segs, tail, -, honly, hread, -⟩ := stringLiteral_by_segments (rules 1)
      (c "a$\x7bx\x7d") rfl ⟨['a'], ['x', '\x7d'], by simp [c]⟩
    obtain ⟨tail', hsplits, htail⟩ := segments_splits "a$\x7bx\x7d".toList
    obtain ⟨rfl, rfl⟩ := honly _ _ hsplits
    rw [hsegments] at htail hread
    have hname : embedded (rules 1) (String.ofList ['x']) (c "a$\x7bx\x7d").current
        (c "a$\x7bx\x7d") =
      .ok (.identifier place "x") { c "a$\x7bx\x7d" with fragments := [2] } := by
      have htokens : Token.tokenize (String.ofList ['x']) "main" =
          .ok [⟨.identifier, "x", place, false⟩, ⟨.endOfFile, "", ⟨1, 2, "main"⟩, false⟩] := by
        cbv
      unfold embedded
      rw [bind_ok (get_run _), htokens]
      rfl
    exact (hread _ _).mpr ⟨by simpa using htail.symm, _, .text (.hole hname .nil), rfl⟩
  · have hsegments : segments [] "a$$\x7b\x7b\x7d".toList = ([.text ['a', '$']], true) := by
      simp [segments, holeLength?, literalSegment]
    obtain ⟨segs, tail, -, honly, -, herror⟩ := stringLiteral_by_segments (rules 0)
      (c "a$$\x7b\x7b\x7d") rfl ⟨['a', '$'], ['\x7b', '\x7d'], by simp [c]⟩
    obtain ⟨tail', hsplits, htail⟩ := segments_splits "a$$\x7b\x7b\x7d".toList
    obtain ⟨rfl, rfl⟩ := honly _ _ hsplits
    rw [hsegments] at htail herror
    exact (herror _ _).mpr (.inr ⟨htail.symm, ⟨_, .text .nil⟩, rfl⟩)

end UiScript.Syntax
