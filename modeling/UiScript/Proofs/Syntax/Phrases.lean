import UiScript.Proofs.Syntax.Levels

/-!
# Phrases

A phrase is a stretch of tokens that is read as one expression, whatever stands around it, as long
as the token behind it is not one that would go on with it. Phrases come in three grades: what an
access or a call may follow, what may be an operand, and what must be whole, that is, stand between
brackets or separators.
-/

namespace UiScript.Syntax

open List

open Token (Kind Row markRow wordRow stringRow numberRow commaRows commaRows_cons_cons
  commaRows_singleton wordKind)

/-! ### Taking stretches apart -/

variable {r : Row} {rows rows' : List Row} {c d : Cursor} {mark : Symbol} {t : Token} {n n' : Node}
  {k j : Nat}

lemma over_tokens (h : Over (r :: rows) c d) : c.tokens = c.current :: c.next.tokens := by
  refine Cursor.tokens_eq_cons_next fun hrest => ?_
  have := over_length h
  simp only [hrest, length_nil, length_cons] at this
  omega

lemma over_split {e : Cursor} (h : Over (rows ++ [r] ++ rows') c e) :
    ∃ d, Over rows c d ∧ d.current.row = r ∧ Over rows' d.next e ∧
      d.tokens = d.current :: d.next.tokens := by
  rw [append_assoc] at h
  obtain ⟨d, hd, he⟩ := over_append h
  obtain ⟨hrow, hnext⟩ := over_cons he
  exact ⟨d, hd, hrow, hnext, over_tokens he⟩

lemma over_single (h : Over [r] c d) :
    c.current.row = r ∧ c.next = d ∧ c.tokens = c.current :: d.tokens := by
  obtain ⟨hrow, hnext⟩ := over_cons h
  have hd := over_nil hnext
  exact ⟨hrow, hd, hd ▸ over_tokens h⟩

/-- The cursor behind a stretch that ends with one more token. -/
lemma over_snoc {e : Cursor} (h : Over (rows ++ [r]) c e) :
    ∃ d, Over rows c d ∧ d.current.row = r ∧ d.next = e ∧ d.tokens = d.current :: e.tokens := by
  obtain ⟨d, hd, he⟩ := over_append h
  exact ⟨d, hd, over_single he⟩

/-- The cursor in front of what closes a bracket. -/
lemma over_bracketed {l f : Row} {g : Cursor} (h : Over ([l] ++ rows ++ [f]) c g) :
    ∃ d, c.current.row = l ∧ Over rows c.next d ∧ d.current.row = f ∧ d.next = g ∧
      c.tokens = c.current :: c.next.tokens ∧ d.tokens = d.current :: g.tokens := by
  obtain ⟨d, hd, hclose, hnext, htokens⟩ := over_snoc h
  obtain ⟨hopen, hrows⟩ := over_cons hd
  exact ⟨d, hopen, hrows, hclose, hnext, over_tokens hd, htokens⟩

lemma kind_of_row (h : c.current.row = r) : c.current.kind = r.kind :=
  congrArg Row.kind h

lemma kind_of_mark (h : c.current.row = markRow mark) : c.current.kind = .symbol mark :=
  kind_of_row h

lemma value_of_row (h : c.current.row = r) : c.current.value = r.value :=
  congrArg Row.value h

/-! ### Rounds of a loop -/

section Loop

variable {α β : Type} {step : α → Parse (α ⊕ β)} {a a' : α} {m : Nat}

lemma loop_inl (hm : 0 < m) (h : step a c = .ok (.inl a') d) :
    loop step m a c = loop step (m - 1) a' d := by
  cases m with
  | zero => cases hm
  | succ => exact bind_ok h

lemma loop_inr {b : β} (hm : 0 < m) (h : step a c = .ok (.inr b) d) :
    loop step m a c = .ok b d := by
  cases m with
  | zero => cases hm
  | succ => exact bind_ok h

end Loop

/-! ### Where expressions start -/

def isStart : Kind → Bool
  | .identifier | .number | .string => true
  | .keyword .trueWord | .keyword .falseWord | .keyword .nullWord => true
  | .symbol .leftParen | .symbol .leftBracket | .symbol .leftBrace => true
  | .symbol .not | .symbol .minus => true
  | _ => false

/-- The rows start as an expression does; a brace among them opens an object. -/
def Starts (rows : List Row) : Prop :=
  ∀ ⦃c d : Cursor⦄, Over rows c d →
    isStart c.current.kind ∧ (c.current.kind = .symbol .leftBrace → opensObject c.rest)

lemma Starts.append (h : Starts rows) (rows' : List Row) : Starts (rows ++ rows') := by
  intro c e hover
  obtain ⟨d, hd, -⟩ := over_append hover
  exact h hd

/-- A first token other than a brace is enough. -/
lemma starts_cons (rows : List Row) (h : isStart r.kind)
    (hbrace : r.kind ≠ .symbol .leftBrace) : Starts (r :: rows) := by
  intro c d hover
  rw [kind_of_row (over_cons hover).1]
  exact ⟨h, fun hk => absurd hk hbrace⟩

lemma Starts.isStart (h : Starts rows) (hover : Over rows c d) : isStart c.current.kind :=
  (h hover).1

lemma not_isSeparator_of_start {kind : Kind} (h : isStart kind) : isSeparator kind = false := by
  cases kind with
  | symbol mark => cases mark <;> first | rfl | cases h
  | newline => cases h
  | _ => rfl

/-- Nothing is skipped in front of a token that separates nothing. -/
lemma skip_eq_self (h : isSeparator c.current.kind = false) : c.skip = c := by
  unfold Cursor.skip
  cases hr : c.rest with
  | nil =>
    cases c
    simp_all [dropSeparators]
  | cons =>
    cases c
    simp_all [dropSeparators]

lemma wordKind_ne_newline (word : String) : wordKind word ≠ .newline := by
  unfold wordKind
  split <;> exact nofun

/-! ### Parentheses -/

/-- The parentheses of some rows are closed where they are, and no line ends among them. -/
structure Balanced (rows : List Row) : Prop where
  closes : ∀ ⦃c d : Cursor⦄, Over rows c d → ∀ depth,
    closesBeforeArrow (depth + 1) c.tokens = closesBeforeArrow (depth + 1) d.tokens
  sameLine : ∀ r ∈ rows, r.kind ≠ .newline

lemma balanced_nil : Balanced [] := by
  refine ⟨fun c d hover depth => ?_, by simp⟩
  rw [over_nil hover]

lemma Balanced.append (h : Balanced rows) (h' : Balanced rows') : Balanced (rows ++ rows') := by
  refine ⟨fun c e hover depth => ?_, fun r hr => ?_⟩
  · obtain ⟨d, hd, he⟩ := over_append hover
    rw [h.closes hd, h'.closes he]
  · exact (mem_append.mp hr).elim (h.sameLine r) (h'.sameLine r)

/-- A token that is neither a parenthesis nor an end. -/
def isLevel : Kind → Bool
  | .symbol .leftParen | .symbol .rightParen | .newline | .endOfFile => false
  | _ => true

lemma closesBeforeArrow_level (h : isLevel t.kind) (depth : Nat) (ts : List Token) :
    closesBeforeArrow depth (t :: ts) = closesBeforeArrow depth ts := by
  rw [closesBeforeArrow]
  split <;> first | rfl | simp_all [isLevel]

lemma balanced_single (h : isLevel r.kind) : Balanced [r] := by
  refine ⟨fun c d hover depth => ?_, fun s hs hline => ?_⟩
  · obtain ⟨hrow, -, htokens⟩ := over_single hover
    rw [htokens, closesBeforeArrow_level (by rwa [kind_of_row hrow])]
  · obtain rfl := mem_singleton.mp hs
    rw [hline] at h
    cases h

lemma Balanced.joined (h : Balanced rows) (hr : isLevel r.kind) (h' : Balanced rows') :
    Balanced (rows ++ [r] ++ rows') :=
  (h.append (balanced_single hr)).append h'

lemma Balanced.enclosed {l : Row} (hl : isLevel l.kind) (h : Balanced rows)
    (hr : isLevel r.kind) : Balanced ([l] ++ rows ++ [r]) :=
  ((balanced_single hl).append h).append (balanced_single hr)

lemma closesBeforeArrow_open (h : t.kind = .symbol .leftParen) (depth : Nat) (ts : List Token) :
    closesBeforeArrow depth (t :: ts) = closesBeforeArrow (depth + 1) ts := by
  rw [closesBeforeArrow, h]

lemma closesBeforeArrow_close (h : t.kind = .symbol .rightParen) (depth : Nat) (ts : List Token) :
    closesBeforeArrow depth (t :: ts) =
      if depth ≤ 1 then ts.head?.any (·.kind == .symbol .arrow)
      else closesBeforeArrow (depth - 1) ts := by
  rw [closesBeforeArrow, h]

lemma Balanced.parens (h : Balanced rows) :
    Balanced ([markRow .leftParen] ++ rows ++ [markRow .rightParen]) := by
  refine ⟨fun c f hover depth => ?_, fun r hr => ?_⟩
  · obtain ⟨e, hopen, hrows, hclose, -, htokens, htokens'⟩ := over_bracketed hover
    rw [htokens, closesBeforeArrow_open (kind_of_row hopen), h.closes hrows, htokens',
      closesBeforeArrow_close (kind_of_row hclose), if_neg (by omega)]
    rfl
  · simp only [mem_append, mem_singleton] at hr
    rcases hr with (rfl | hr) | rfl
    · exact nofun
    · exact h.sameLine r hr
    · exact nofun

/-- The token behind parentheses says whether they hold the parameters of a function. -/
lemma Balanced.closesBeforeArrow (h : Balanced rows)
    (hover : Over ([markRow .leftParen] ++ rows ++ [markRow .rightParen]) c d) :
    closesBeforeArrow 0 c.tokens = (d.current.kind == .symbol .arrow) := by
  obtain ⟨e, hopen, hrows, hclose, -, htokens, htokens'⟩ := over_bracketed hover
  rw [htokens, closesBeforeArrow_open (kind_of_row hopen), h.closes hrows, htokens',
    closesBeforeArrow_close (kind_of_row hclose)]
  rfl

/-! ### Readings at a level -/

/-- The rows are read at a level as a node, in front of tokens that are looser than `j`. -/
def Reads (i j : Nat) (rows : List Row) (n : Node) : Prop :=
  ∀ ⦃k : Nat⦄ ⦃c d : Cursor⦄, rows.length ≤ k → Over rows c d → j < tightness d.current.kind →
    ∃ n', level (rules k) i c = .ok n' d ∧ n'.unplaced = n

/-- What is read at a level is read at all looser ones. -/
lemma Reads.up {i i' j' : Nat} (h : Reads i j rows n)
    (hup : 1 ≤ i ∧ i ≤ i' ∧ i' ≤ 10 ∧ i' ≤ j' ∧ j ≤ j') : Reads i' j' rows n := by
  obtain ⟨hpos, hi, hmax, hij, hj⟩ := hup
  induction hi with
  | refl => exact fun k c d hk hover hd => h hk hover (by omega)
  | @step i' hi ih =>
    simp only [Nat.le_eq] at hi
    intro k c d hk hover hd
    obtain ⟨n', hread, hn⟩ := ih (by omega) (by omega) hk hover hd
    exact ⟨n', level_stop (by omega) (by omega) hread (by omega), hn⟩

/-- The rows are read as a node that calls and accesses may still go on with. -/
def Opens (rows : List Row) (n : Node) : Prop :=
  ∀ ⦃k : Nat⦄ ⦃c d : Cursor⦄, rows.length ≤ k → Over rows c d → 0 < tightness d.current.kind →
    ∃ n' m, n'.unplaced = n ∧ d.rest.length + 2 ≤ m ∧
      unary (rules k) c = loop (accessStep (rules k)) m n' d

lemma accessStep_stop {r : Rules} {e : Node} (h : 1 < tightness c.current.kind) :
    accessStep r e c = .ok (.inr e) c := by
  unfold accessStep
  rw [bind_ok (here_run c), bind_ok (peek_run c)]
  cases hk : c.current.kind with
  | symbol mark =>
    rw [hk] at h
    cases mark <;> first | rfl | simp [tightness] at h
  | _ => rfl

lemma Opens.reads (h : Opens rows n) : Reads 1 1 rows n := by
  intro k c d hk hover hd
  obtain ⟨n', m, hn, hm, hread⟩ := h hk hover (by omega)
  exact ⟨n', hread.trans (loop_inr (by omega) (accessStep_stop hd)), hn⟩

lemma unary_access {r : Rules} (h : isUnaryOperator c.current.kind = false) :
    unary r c = access r c := by
  unfold unary
  rw [bind_ok (peek_run c), if_neg (by simp [h])]

/-- A token that no sign is starts a primary expression. -/
lemma unary_over {r' : Rules} (h : isUnaryOperator r.kind = false) (hover : Over (r :: rows) c d)
    (hread : level r' 0 c = .ok n d) : unary r' c = iterate (accessStep r') n d := by
  rw [unary_access (by rwa [kind_of_row (over_cons hover).1]), access,
    bind_ok (show primary r' c = _ from hread)]

lemma Reads.opens (h : Reads 0 0 rows n)
    (hfirst : ∃ r us, rows = r :: us ∧ isUnaryOperator r.kind = false) : Opens rows n := by
  obtain ⟨r, us, rfl, hr⟩ := hfirst
  intro k c d hk hover hd
  obtain ⟨n', hread, hn⟩ := h hk hover hd
  exact ⟨n', d.rest.length + 2, hn, Nat.le_refl _, unary_over hr hover hread⟩

lemma expression_eq_primary {r : Rules} (hstart : isUnaryOperator c.current.kind = false)
    (h : ∀ n d, primary r c = .ok n d → d.current.kind = .endOfFile) :
    expression r c = primary r c := by
  have hunary : level r 1 c = primary r c := by
    change unary r c = _
    rw [unary_access hstart, access]
    cases hrun : primary r c with
    | error => exact bind_error hrun
    | ok n d =>
      rw [bind_ok hrun, iterate, bind_ok (get_run d), loop,
        bind_ok (accessStep_stop (by rw [h n d hrun]; decide))]
      rfl
  have hlevel (i : Nat) (hpos : 1 ≤ i) (hmax : i ≤ 10) : level r i c = primary r c := by
    induction hpos with
    | refl => exact hunary
    | @step i hpos ih =>
      have hi := ih (by omega)
      cases hrun : primary r c with
      | error => exact level_error hpos (by omega) (hi.trans hrun)
      | ok n d =>
        have htight : tightness d.current.kind = 11 := by rw [h n d hrun]; rfl
        exact level_stop hpos (by omega) (hi.trans hrun) (by omega)
  exact hlevel 10 (by decide) (by decide)

/-! ### Grades -/

inductive Grade where
  /-- Accesses and calls. -/
  | chain
  | operand
  /-- Only the end of what is around it, or a separator. -/
  | whole

/-- A phrase of a grade may stand where one of a greater grade is asked for. -/
def Grade.rank : Grade → Nat
  | .chain => 0
  | .operand => 1
  | .whole => 2

def Grade.Reads : Grade → List Row → Node → Prop
  | .chain, rows, n => Opens rows n
  | .operand, rows, n => Syntax.Reads 1 1 rows n
  | .whole, rows, n => Syntax.Reads 9 10 rows n

/-- A stretch of tokens that is read as an expression. -/
structure Phrase (g : Grade) (rows : List Row) (n : Node) : Prop where
  starts : Starts rows
  balanced : Balanced rows
  reads : g.Reads rows n

namespace Phrase

variable {rows rows' : List Row} {n n' : Node}

lemma operand (h : Phrase .chain rows n) : Phrase .operand rows n :=
  { h with reads := Opens.reads h.reads }

lemma whole (h : Phrase .operand rows n) : Phrase .whole rows n :=
  { h with reads := Reads.up h.reads (by decide) }

lemma mono {g g' : Grade} (h : Phrase g rows n) (hg : g.rank ≤ g'.rank) : Phrase g' rows n :=
  match g, g' with
  | .chain, .chain | .operand, .operand | .whole, .whole => h
  | .chain, .operand => h.operand
  | .chain, .whole => h.operand.whole
  | .operand, .whole => h.whole
  | .operand, .chain | .whole, .chain | .whole, .operand => absurd hg (by decide)

lemma expression (h : Phrase .whole rows n) (hk : rows.length < k)
    (hover : Over rows c d) (hd : 10 < tightness d.current.kind) :
    ∃ n', (rules k).expression c = .ok n' d ∧ n'.unplaced = n := by
  obtain ⟨k, rfl⟩ : ∃ l, k = l + 1 := ⟨k - 1, by omega⟩
  exact (Reads.up h.reads (by decide) : Syntax.Reads 10 10 rows n) (Nat.le_of_lt_succ hk) hover hd

end Phrase

/-! ### Single tokens -/

/-- A token that is an expression by itself. -/
def isAtom : Kind → Bool
  | .identifier | .number | .string => true
  | .keyword .trueWord | .keyword .falseWord | .keyword .nullWord => true
  | _ => false

lemma phrase_atom (hr : isAtom r.kind)
    (h : ∀ k c, c.current.row = r → 0 < tightness c.next.current.kind →
      ∃ n', primary (rules k) c = .ok n' c.next ∧ n'.unplaced = n) : Phrase .chain [r] n := by
  obtain ⟨hstart, hbrace, hlevel, hunary⟩ : isStart r.kind ∧ r.kind ≠ .symbol .leftBrace ∧
      isLevel r.kind ∧ isUnaryOperator r.kind = false := by
    revert hr
    cases r.kind <;> simp [isAtom, isStart, isLevel, isUnaryOperator]
    rename_i word
    cases word <;> simp
  refine ⟨starts_cons [] hstart hbrace, balanced_single hlevel, Reads.opens ?_ ⟨_, _, rfl, hunary⟩⟩
  intro k c d hk hover hd
  obtain ⟨hrow, rfl, -⟩ := over_single hover
  exact h k c hrow hd

/-- The production that a primary expression goes by. -/
lemma primary_run (r : Rules) (c : Cursor) : primary r c =
    (match c.current.kind with
      | .symbol .leftParen =>
        if closesBeforeArrow 0 c.tokens then arrowFunction r else parenthesized r
      | .symbol .leftBracket => array r
      | .symbol .leftBrace =>
        if opensObject c.rest then object r else throw (SyntaxFault.unexpected c.current)
      | .number => numberLiteral
      | .string => stringLiteral r
      | .keyword .trueWord => advance >>= fun _ => pure (.boolean c.current.place true)
      | .keyword .falseWord => advance >>= fun _ => pure (.boolean c.current.place false)
      | .keyword .nullWord => advance >>= fun _ => pure (.null c.current.place)
      | .identifier => nameOrArrow r
      | _ => do if ← atElement then element r else throw (SyntaxFault.unexpected c.current)) c := by
  unfold primary
  rw [bind_ok (get_run c)]
  cases c.current.kind with
  | symbol mark => cases mark <;> rfl
  | keyword word => cases word <;> rfl
  | _ => rfl

lemma phrase_identifier {name : String} (h : wordKind name = .identifier) :
    Phrase .chain [wordRow name] (.identifier none name) := by
  have hkind : (wordRow name).kind = .identifier := h
  refine phrase_atom (by rw [hkind]; rfl) fun k c hrow hnext => ?_
  refine ⟨.identifier c.current.place name, ?_, rfl⟩
  have harrow : accept (.symbol .arrow) c.next = .ok false c.next := accept_loose .arrow hnext
  rw [primary_run, kind_of_row hrow, hkind]
  dsimp only
  unfold nameOrArrow
  rw [bind_ok (advance_run c), bind_ok harrow, value_of_row hrow]
  rfl

lemma phrase_number {text : String} {n : Int} (h : Numeral.readNumber text = .ok (.int n)) :
    Phrase .chain [numberRow text] (.number none (.number (.int n))) := by
  refine phrase_atom rfl fun k c hrow _ => ⟨.number c.current.place (.number (.int n)), ?_, rfl⟩
  have hvalue : c.current.value = text := value_of_row hrow
  rw [primary_run, kind_of_row hrow]
  change numberLiteral c = _
  unfold numberLiteral
  rw [bind_ok (advance_run c), hvalue, h]
  rfl

lemma phrase_string (value : String) : Phrase .chain [stringRow value] (.string none value) := by
  refine phrase_atom rfl fun k c hrow _ => ⟨.string c.current.place value, ?_, rfl⟩
  have htemplate : c.current.template = false := congrArg Row.template hrow
  rw [primary_run, kind_of_row hrow]
  change stringLiteral _ c = _
  unfold stringLiteral
  rw [bind_ok (advance_run c), htemplate, value_of_row hrow]
  rfl

lemma phrase_boolean (b : Bool) :
    Phrase .chain [wordRow (if b then "true" else "false")] (.boolean none b) := by
  cases b with
  | false | true =>
    refine phrase_atom rfl fun k c hrow _ => ⟨.boolean c.current.place _, ?_, rfl⟩
    rw [primary_run, kind_of_row hrow]
    exact bind_ok (advance_run c)

lemma phrase_null : Phrase .chain [wordRow "null"] (.null none) := by
  refine phrase_atom rfl fun k c hrow _ => ⟨.null c.current.place, ?_, rfl⟩
  rw [primary_run, kind_of_row hrow]
  exact bind_ok (advance_run c)

/-! ### Operators -/

lemma expectSymbol_row (h : c.current.row = markRow mark) :
    expectSymbol mark c = .ok () c.next := by
  rw [expectSymbol_run, if_pos (kind_of_mark h)]

lemma accept_row (h : c.current.row = markRow mark) :
    accept (.symbol mark) c = .ok true c.next := by
  rw [accept_run, if_pos (kind_of_mark h)]

lemma expectIdentifier_run {name : String} (h : c.current.row = wordRow name)
    (hname : wordKind name = .identifier) : expectIdentifier c = .ok name c.next := by
  have hkind : c.current.kind = .identifier := (kind_of_row h).trans hname
  unfold expectIdentifier
  rw [bind_run, expect_run, if_pos hkind]
  exact congrArg (EStateM.Result.ok · c.next) (value_of_row h)

/-- What is read as an expression is primary between parentheses. -/
lemma opens_parens (hbalanced : Balanced rows) (h : Reads 10 10 rows n) :
    Opens ([markRow .leftParen] ++ rows ++ [markRow .rightParen]) n := by
  refine Reads.opens ?_ ⟨_, _, rfl, rfl⟩
  intro k c f hk hover hf
  have harrow : closesBeforeArrow 0 c.tokens = false := by
    rw [hbalanced.closesBeforeArrow hover, beq_eq_false_iff_ne]
    intro hk
    simp [hk, tightness] at hf
  obtain ⟨e, hopen, hrows, hclose, rfl, -⟩ := over_bracketed hover
  have hlength : rows.length < k := by simp at hk; omega
  obtain ⟨k, rfl⟩ : ∃ l, k = l + 1 := ⟨k - 1, by omega⟩
  obtain ⟨n', hread, hn⟩ := h (Nat.le_of_lt_succ hlength) hrows (by rw [kind_of_row hclose]; decide)
  refine ⟨n', ?_, hn⟩
  change primary (rules (k + 1)) c = _
  rw [primary_run, kind_of_row hopen]
  simp only [markRow, harrow, Bool.false_eq_true, if_false]
  unfold parenthesized
  rw [bind_ok (advance_run c),
    bind_ok (show (rules (k + 1)).expression c.next = .ok n' e from hread),
    bind_ok (expectSymbol_row hclose)]
  rfl

lemma unplaced_joinAt (i : Nat) (place : Option Place) (op : String) (left right : Node) :
    (joinAt i place op left right).unplaced = joinAt i none op left.unplaced right.unplaced := by
  unfold joinAt
  split <;> rfl

/-- The rows are read as a node that the operators of a level may still go on with. -/
def Gathers (i : Nat) (rows : List Row) (n : Node) : Prop :=
  ∀ ⦃k : Nat⦄ ⦃c d : Cursor⦄, rows.length ≤ k → Over rows c d → i ≤ tightness d.current.kind →
    ∃ n' m, n'.unplaced = n ∧ d.rest.length + 2 ≤ m ∧
      level (rules k) i c = loop (stepAt (rules k) i) m n' d

lemma Gathers.reads (h : Gathers i rows n) (hi : groupsLeft i) : Reads i i rows n := by
  intro k c d hk hover hd
  obtain ⟨n', m, hn, hm, hread⟩ := h hk hover (by omega)
  exact ⟨n', hread.trans (loop_inr (by omega) (stepAt_stop hi hd n')), hn⟩

/-- What is read at the level below is a first operand. -/
lemma Reads.gathers (h : Reads (i - 1) (i - 1) rows n) (hi : groupsLeft i) : Gathers i rows n := by
  intro k c d hk hover hd
  have hpos : 1 ≤ i := by
    have := groupsLeft_cases hi
    omega
  obtain ⟨n', hread, hn⟩ := h hk hover (by omega)
  refine ⟨n', d.rest.length + 2, hn, Nat.le_refl _, ?_⟩
  rw [level_eq_iterate _ hi, bind_ok hread]
  rfl

/-- One more operator with its operand behind what has been gathered. -/
lemma Gathers.operator (hmark : tightness (.symbol mark) = i) (hi : groupsLeft i)
    (h : Gathers i rows n)
    (h' : Reads (i - 1) (i - 1) rows' n')
    (hnext : mark = .lt → ∀ ⦃c d⦄, Over ([markRow mark] ++ rows') c d →
      (c.rest.head?.any fun t => isTagName t.kind t.value) = false) :
    Gathers i (rows ++ [markRow mark] ++ rows') (joinAt i none mark.spelling n n') := by
  intro k c e hk hover he
  have hpos : 1 ≤ i := by
    have := groupsLeft_cases hi
    omega
  simp only [length_append, length_singleton] at hk
  rw [append_assoc] at hover
  obtain ⟨d, hd, hop⟩ := over_append hover
  obtain ⟨hrow, hright⟩ := over_cons hop
  have hkind := kind_of_mark hrow
  obtain ⟨l, m, hl, hm, hread⟩ := h (k := k) (by omega) hd (Nat.le_of_eq (by rw [hkind, hmark]))
  obtain ⟨r, hr, hrn⟩ := h' (k := k) (by omega) hright (by omega)
  have hlength := over_length hop
  simp only [length_append, length_singleton] at hlength
  refine ⟨joinAt i d.current.place d.current.value l r, m - 1, ?_, by omega,
    hread.trans (loop_inl (by omega) ?_)⟩
  · rw [unplaced_joinAt, hl, hrn, value_of_row hrow]
    rfl
  · unfold stepAt operatorStep
    rw [bind_ok (operatorAt_mark hmark hi hkind fun hlt => hnext hlt hop), if_pos rfl,
      bind_ok (here_run d), bind_ok (advance_run d), bind_ok hr]
    rfl

lemma Reads.signed (hmark : isUnaryOperator (.symbol mark)) (h : Reads 1 1 rows n) :
    Reads 1 1 ([markRow mark] ++ rows) (.unary none mark.spelling n) := by
  intro k c d hk hover hd
  obtain ⟨hop, hrows⟩ := over_cons hover
  simp only [length_append, length_singleton] at hk
  obtain ⟨k, rfl⟩ : ∃ l, k = l + 1 := ⟨k - 1, by omega⟩
  obtain ⟨n', hread, hn⟩ := h (k := k) (by omega) hrows hd
  refine ⟨.unary c.current.place mark.spelling n', ?_, by simp only [Node.unplaced, hn]⟩
  change unary (rules (k + 1)) c = _
  unfold unary
  rw [bind_ok (peek_run c), kind_of_mark hop, if_pos hmark, bind_ok (here_run c),
    bind_ok (advance_run c), bind_ok (show (rules (k + 1)).unary c.next = .ok n' d from hread),
    value_of_row hop]
  rfl

lemma Reads.assignment (h : Reads 9 j rows n)
    (hk : rows.length < k) (hover : Over rows c d) (hd : j < tightness d.current.kind) :
    ∃ n', (rules k).assignment c = .ok n' d ∧ n'.unplaced = n := by
  obtain ⟨k, rfl⟩ : ∃ l, k = l + 1 := ⟨k - 1, by omega⟩
  exact h (Nat.le_of_lt_succ hk) hover hd

/-- A condition with its two outcomes. The last one takes an assignment behind it to itself, so that
a conditional is as loose as an assignment. -/
lemma Reads.conditional (hlow : 9 ≤ j) (hhigh : j ≤ 10) {rows'' : List Row}
    {n'' : Node} (h : Reads 7 7 rows n) (h' : Reads 9 j rows' n') (h'' : Reads 9 j rows'' n'') :
    Reads 9 j (rows ++ [markRow .question] ++ rows' ++ [markRow .colon] ++ rows'')
      (.conditional none n n' n'') := by
  intro k c f hk hover hf
  obtain ⟨e, he, hsep, hno, -⟩ := over_split hover
  obtain ⟨d, hd, hmark, hyes, -⟩ := over_split he
  simp only [length_append, length_singleton] at hk
  have hcolon : j < tightness e.current.kind := by
    rw [kind_of_mark hsep]
    exact Nat.lt_succ_of_le hhigh
  obtain ⟨a, ha, han⟩ := h (k := k) (by omega) hd (by rw [kind_of_mark hmark]; decide)
  obtain ⟨y, hy, hyn⟩ := h'.assignment (k := k) (by omega) hyes hcolon
  obtain ⟨z, hz, hzn⟩ := h''.assignment (k := k) (by omega) hno hf
  refine ⟨.conditional d.current.place a y z, assignment_stop ?_ (by omega), by
    simp only [Node.unplaced, han, hyn, hzn]⟩
  unfold Syntax.conditional
  rw [bind_ok (show disjunction (rules k) c = _ from ha), bind_ok (here_run d),
    bind_ok (accept_row hmark), if_pos rfl, bind_ok hy,
    bind_ok (expectSymbol_row hsep), bind_ok hz]
  rfl

/-- A target and its new value. -/
lemma Reads.assign (h : Reads 7 7 rows n) (h' : Reads 9 j rows' n') :
    Reads 9 j (rows ++ [markRow .assign] ++ rows') (.assign none n n') := by
  intro k c e hk hover he
  obtain ⟨d, hd, hmark, hvalue, -⟩ := over_split hover
  simp only [length_append, length_singleton] at hk
  have htarget : 8 < tightness d.current.kind := by
    rw [kind_of_mark hmark]
    decide
  obtain ⟨a, ha, han⟩ := h (k := k) (by omega) hd (by omega)
  obtain ⟨y, hy, hyn⟩ := h'.assignment (k := k) (by omega) hvalue he
  refine ⟨.assign d.current.place a y, ?_, by simp only [Node.unplaced, han, hyn]⟩
  change Syntax.assignment (rules k) c = _
  unfold Syntax.assignment
  rw [bind_ok (conditional_stop (show disjunction (rules k) c = _ from ha) htarget),
    bind_ok (here_run d), bind_ok (accept_row hmark), if_pos rfl, bind_ok hy]
  rfl

namespace Phrase

variable {rows rows' rows'' : List Row} {n n' n'' : Node}

/-- Everything can be put between parentheses. -/
lemma parens (h : Phrase .whole rows n) :
    Phrase .chain ([markRow .leftParen] ++ rows ++ [markRow .rightParen]) n :=
  ⟨starts_cons _ rfl (by decide), h.balanced.parens,
    opens_parens h.balanced (Reads.up h.reads (by decide))⟩

lemma reads_operand (h : Phrase .operand rows n) {i : Nat} (hi : 1 ≤ i ∧ i ≤ 10) :
    Syntax.Reads i i rows n :=
  Reads.up h.reads (by omega)

/-- Two operands around an operator. -/
lemma binary (hmark : isInfix mark) (h : Phrase .operand rows n) (h' : Phrase .operand rows' n') :
    Phrase .whole (rows ++ [markRow mark] ++ rows') (.binary none mark.spelling n n') := by
  obtain ⟨⟨hne, hlow⟩, hhigh⟩ : (mark ≠ .lt ∧ 2 ≤ tightness (.symbol mark)) ∧
      tightness (.symbol mark) ≤ 7 := by
    simpa [isInfix] using hmark
  have hlevel : isLevel (.symbol mark) ∧ groupsLeft (tightness (.symbol mark)) ∧
      joinAt (tightness (.symbol mark)) none mark.spelling n n' =
        .binary none mark.spelling n n' := by
    cases mark <;> first | exact ⟨rfl, rfl, rfl⟩ | cases hmark
  obtain ⟨hlevel, hleft, hjoin⟩ := hlevel
  refine ⟨(h.starts.append _).append _, h.balanced.joined hlevel h'.balanced, ?_⟩
  have hgathers := (Reads.gathers (h.reads_operand (by omega)) hleft).operator rfl hleft
    (h'.reads_operand (by omega)) fun hlt => absurd hlt hne
  rw [← hjoin]
  exact (hgathers.reads hleft).up (by omega)

lemma unary (hmark : isUnaryOperator (.symbol mark)) (h : Phrase .chain rows n) :
    Phrase .operand ([markRow mark] ++ rows) (.unary none mark.spelling n) := by
  have hstart : isStart (.symbol mark) ∧ mark ≠ .leftBrace ∧ isLevel (.symbol mark) := by
    cases mark <;> first | decide | cases hmark
  exact ⟨starts_cons rows hstart.1 (by simpa [markRow] using hstart.2.1),
    (balanced_single hstart.2.2).append h.balanced, Reads.signed hmark h.operand.reads⟩

/-- A condition with its two outcomes. -/
lemma conditional (h : Phrase .operand rows n) (h' : Phrase .whole rows' n')
    (h'' : Phrase .whole rows'' n'') :
    Phrase .whole (rows ++ [markRow .question] ++ rows' ++ [markRow .colon] ++ rows'')
      (.conditional none n n' n'') := by
  exact ⟨(((h.starts.append _).append _).append _).append _,
    (h.balanced.joined rfl h'.balanced).joined rfl h''.balanced,
    Reads.conditional (by decide) (by decide) (h.reads_operand (by decide)) h'.reads
      h''.reads⟩

/-- A target and its new value. -/
lemma assign (h : Phrase .operand rows n) (h' : Phrase .whole rows' n') :
    Phrase .whole (rows ++ [markRow .assign] ++ rows') (.assign none n n') :=
  ⟨(h.starts.append _).append _, h.balanced.joined rfl h'.balanced,
    Reads.assign (h.reads_operand (by decide)) h'.reads⟩

end Phrase

/-! ### Calls and accesses -/

/-- One more access or call behind a phrase. -/
lemma Opens.step {more : List Row} {m : Node} (h : Opens rows n)
    (hfirst : ∃ r us, more = r :: us ∧ 0 < tightness r.kind)
    (hstep : ∀ ⦃k c d e⦄, more.length ≤ k → Over more c d → e.unplaced = n →
      ∃ e', accessStep (rules k) e c = .ok (.inl e') d ∧ e'.unplaced = m) :
    Opens (rows ++ more) m := by
  obtain ⟨r, us, rfl, hr⟩ := hfirst
  intro k c f hk hover hf
  obtain ⟨d, hd, hmore⟩ := over_append hover
  rw [length_append] at hk
  obtain ⟨e, l, he, hl, hread⟩ := h (k := k) (by omega) hd
    (by rwa [kind_of_row (over_cons hmore).1])
  obtain ⟨e', hstep, he'⟩ := hstep (k := k) (by omega) hmore he
  have hlength := over_length hmore
  rw [length_cons] at hlength
  exact ⟨e', l - 1, he', by omega, hread.trans (loop_inl (by omega) hstep)⟩

namespace Phrase

variable {rows rows' : List Row} {n n' : Node}

lemma isName_wordKind (word : String) : isName (wordKind word) := by
  unfold wordKind
  split <;> rfl

lemma isLevel_wordKind (word : String) : isLevel (wordKind word) := by
  unfold wordKind
  split <;> rfl

lemma member (h : Phrase .chain rows n) (name : String) :
    Phrase .chain (rows ++ [markRow .dot, wordRow name]) (.member none n name false none) := by
  have hlevel : Balanced ([markRow .dot] ++ [wordRow name]) :=
    (balanced_single rfl).append (balanced_single (isLevel_wordKind name))
  refine ⟨h.starts.append _, h.balanced.append hlevel, ?_⟩
  refine Opens.step h.reads ⟨_, _, rfl, by decide⟩ fun k c d e _ hover he => ?_
  obtain ⟨hdot, hname⟩ := over_cons hover
  obtain ⟨hrow, rfl, -⟩ := over_single hname
  have hword : isName c.next.current.kind := by
    rw [kind_of_row hrow]
    exact isName_wordKind name
  refine ⟨.member c.current.place e name false none, ?_, by
    simp only [Node.unplaced, Node.unplacedOption, he]⟩
  unfold accessStep
  rw [bind_ok (here_run c), bind_ok (peek_run c), kind_of_mark hdot]
  change (advance >>= _) c = _
  rw [bind_ok (advance_run c), bind_run, expectName_run, if_pos hword, value_of_row hrow]
  rfl

/-- An element or a member whose name is computed. -/
lemma index (h : Phrase .chain rows n) (h' : Phrase .whole rows' n') :
    Phrase .chain (rows ++ ([markRow .leftBracket] ++ rows' ++ [markRow .rightBracket]))
      (.member none n "" true (some n')) := by
  have hlevel : Balanced ([markRow .leftBracket] ++ rows' ++ [markRow .rightBracket]) :=
    .enclosed rfl h'.balanced rfl
  refine ⟨h.starts.append _, h.balanced.append hlevel, ?_⟩
  refine Opens.step h.reads ⟨_, _, rfl, by decide⟩ fun k c f e hk hover he => ?_
  obtain ⟨d, hopen, hrows, hclose, rfl, -⟩ := over_bracketed hover
  simp only [length_append, length_singleton] at hk
  obtain ⟨i, hi, hin⟩ := h'.expression (k := k) (by omega) hrows
    (by rw [kind_of_mark hclose]; decide)
  refine ⟨.member c.current.place e "" true (some i), ?_, by
    simp only [Node.unplaced, Node.unplacedOption, he, hin]⟩
  unfold accessStep
  rw [bind_ok (here_run c), bind_ok (peek_run c), kind_of_mark hopen]
  change (advance >>= _) c = _
  rw [bind_ok (advance_run c), bind_ok hi, bind_ok (expectSymbol_row hclose)]
  rfl

end Phrase

/-! ### Lists -/

section Lists

variable {α β : Type}

structure ItemReads (item : Parse α) (v : α → β) (close : Symbol) (rows : List Row) (b : β) :
    Prop where
  starts : ∀ ⦃c d⦄, Over rows c d → isStart c.current.kind
  reads : ∀ ⦃c d⦄, Over rows c d →
    d.current.kind = .symbol .comma ∨ d.current.kind = .symbol close →
      ∃ a, item c = .ok a d ∧ v a = b

variable {item : Parse α} {v : α → β} {close : Symbol} {rowss : List (List Row)} {bs : List β}
  {c d : Cursor}

lemma ItemReads.first {b : β} (h : ItemReads item v close rows b)
    (hover : Over (commaRows (rows :: rowss)) c d) : isStart c.current.kind := by
  cases rowss with
  | nil =>
    rw [commaRows_singleton] at hover
    exact h.starts hover
  | cons =>
    rw [commaRows_cons_cons] at hover
    obtain ⟨e, he, -⟩ := over_split hover
    exact h.starts he

def isClosing : Symbol → Bool
  | .rightParen | .rightBracket | .rightBrace => true
  | _ => false

lemma check_start (hclose : isClosing close) (h : isStart c.current.kind) :
    check (.symbol close) c = .ok false c := by
  have hne : c.current.kind ≠ .symbol close := by
    intro hk
    rw [hk] at h
    cases close <;> first | exact absurd h (by decide) | exact absurd hclose (by decide)
  simp [hne]

lemma check_closing (hd : d.current.kind = .symbol close) :
    check (.symbol close) d = .ok true d := by
  simp [hd]

lemma accept_comma_closing (hclose : isClosing close) (hd : d.current.kind = .symbol close) :
    accept (.symbol .comma) d = .ok false d := by
  rw [accept_run, if_neg]
  intro hk
  rw [hd] at hk
  cases hk
  cases hclose

lemma skip_start (h : isStart c.current.kind) : skipNewlines c = .ok ⟨⟩ c := by
  rw [skipNewlines_run, skip_eq_self (not_isSeparator_of_start h)]

lemma skip_closing (hclose : isClosing close) (hd : d.current.kind = .symbol close) :
    skipNewlines d = .ok ⟨⟩ d := by
  rw [skipNewlines_run, skip_eq_self]
  rw [hd]
  cases close <;> first | rfl | cases hclose

/-- What one turn of the two loops over the items of a list does. -/
structure ListStep (item : Parse α) (close : Symbol) (step : List α → Parse (List α ⊕ List α)) :
    Prop where
  done : ∀ ⦃d : Cursor⦄, d.current.kind = .symbol close →
    ∀ acc, step acc d = .ok (.inr acc.reverse) d
  next : ∀ ⦃c e : Cursor⦄ ⦃a : α⦄, isStart c.current.kind → item c = .ok a e →
    e.current.row = markRow .comma → isStart e.next.current.kind →
      ∀ acc, step acc c = .ok (.inl (a :: acc)) e.next
  last : ∀ ⦃c d : Cursor⦄ ⦃a : α⦄, isStart c.current.kind → item c = .ok a d →
    d.current.kind = .symbol close →
      ∀ acc ⦃m⦄, 1 < m → loop step m acc c = .ok (a :: acc).reverse d

lemma listStep_separated (hclose : isClosing close) :
    ListStep item close (separatedStep (check (.symbol close)) item skipNewlines) where
  done d hd acc := by
    unfold separatedStep
    rw [bind_ok (check_closing hd)]
    rfl
  next c e a hc ha hcomma hnext acc := by
    unfold separatedStep
    rw [bind_ok (check_start hclose hc), if_neg (by decide), bind_ok ha,
      bind_ok (accept_row hcomma), if_pos rfl, bind_ok (skip_start hnext)]
    rfl
  last c d a hc ha hd acc m hm := by
    refine loop_inr (Nat.zero_lt_of_lt hm) ?_
    unfold separatedStep
    rw [bind_ok (check_start hclose hc), if_neg (by decide), bind_ok ha,
      bind_ok (accept_comma_closing hclose hd)]
    rfl

lemma listStep_until (hclose : isClosing close) :
    ListStep item close (untilStep (check (.symbol close)) (withComma item)) := by
  have hdone {d : Cursor} (hd : d.current.kind = .symbol close) (acc : List α) :
      untilStep (check (.symbol close)) (withComma item) acc d = .ok (.inr acc.reverse) d := by
    unfold untilStep
    rw [bind_ok (check_closing hd)]
    rfl
  have hitem {c e : Cursor} {a : α} (hc : isStart c.current.kind) (ha : withComma item c = .ok a e)
      (acc : List α) :
      untilStep (check (.symbol close)) (withComma item) acc c = .ok (.inl (a :: acc)) e := by
    unfold untilStep
    rw [bind_ok (check_start hclose hc), if_neg (by decide), bind_ok ha]
    rfl
  refine ⟨fun d hd acc => hdone hd acc, fun c e a hc ha hcomma hnext acc => hitem hc ?_ acc,
    fun c d a hc ha hd acc m hm => ?_⟩
  · unfold withComma
    rw [bind_ok ha, bind_ok (accept_row hcomma), bind_ok (skip_start hnext)]
    rfl
  · have hone : withComma item c = .ok a d := by
      unfold withComma
      rw [bind_ok ha, bind_ok (accept_comma_closing hclose hd), bind_ok (skip_closing hclose hd)]
      rfl
    rw [loop_inl (by omega) (hitem hc hone acc), loop_inr (by omega) (hdone hd _)]

section Over

variable (hclose : isClosing close) (h : Forall₂ (ItemReads item v close) rowss bs)
  (hover : Over (commaRows rowss) c d) (hd : d.current.kind = .symbol close)
include h hover hd

lemma ListStep.loop {step : List α → Parse (List α ⊕ List α)} (hstep : ListStep item close step)
    (acc : List α) {m : Nat} (hm : c.rest.length + 2 ≤ m) :
    ∃ as, loop step m acc c = .ok (acc.reverse ++ as) d ∧ as.map v = bs := by
  induction h generalizing c acc m with
  | nil =>
    obtain rfl := over_nil hover
    exact ⟨[], by rw [loop_inr (by omega) (hstep.done hd acc), append_nil], rfl⟩
  | @cons rows b rowss bs hitem htail ih =>
    have hstart := hitem.first hover
    cases htail with
    | nil =>
      rw [commaRows_singleton] at hover
      obtain ⟨a, ha, hab⟩ := hitem.reads hover (Or.inr hd)
      exact ⟨[a], by rw [hstep.last hstart ha hd acc (by omega), reverse_cons], by simp [hab]⟩
    | cons hnext =>
      rw [commaRows_cons_cons] at hover
      obtain ⟨e, he, hcomma, hrest, -⟩ := over_split hover
      obtain ⟨a, ha, hab⟩ := hitem.reads he (Or.inl (kind_of_mark hcomma))
      have hlength := over_length hover
      have hlength' := over_length hrest
      simp only [length_append, length_singleton] at hlength
      obtain ⟨as, has, hasb⟩ := ih hrest (a :: acc) (m := m - 1) (by omega)
      refine ⟨a :: as, ?_, by simp [hab, hasb]⟩
      rw [loop_inl (by omega) (hstep.next hstart ha hcomma (hnext.first hrest) acc)]
      simpa using has

lemma ListStep.iterate {step : List α → Parse (List α ⊕ List α)}
    (hstep : ListStep item close step) :
    ∃ as, iterate step [] c = .ok as d ∧ as.map v = bs :=
  hstep.loop h hover hd [] (Nat.le_refl _)

include hclose

/-- A list with commas between its items, which ends in front of what closes it. -/
lemma collectSeparated_over :
    ∃ as, collectSeparated (check (.symbol close)) item skipNewlines c = .ok as d ∧
      as.map v = bs :=
  (listStep_separated hclose).iterate h hover hd

/-- A list whose items may have a comma behind them, which ends in front of what closes it. -/
lemma collectUntil_over :
    ∃ as, collectUntil (check (.symbol close)) (withComma item) c = .ok as d ∧ as.map v = bs :=
  (listStep_until hclose).iterate h hover hd

/-- Nothing is skipped at the start of a list. -/
lemma skip_list : skipNewlines c = .ok ⟨⟩ c := by
  cases h with
  | nil =>
    obtain rfl := over_nil hover
    exact skip_closing hclose hd
  | cons hitem => exact skip_start (hitem.first hover)

end Over

lemma balanced_commaRows {R : List Row → β → Prop} (h : Forall₂ R rowss bs)
    (hR : ∀ ⦃rows b⦄, R rows b → Balanced rows) : Balanced (commaRows rowss) := by
  induction h with
  | nil => exact balanced_nil
  | cons hr htail ih =>
    cases htail with
    | nil =>
      rw [commaRows_singleton]
      exact hR hr
    | cons =>
      rw [commaRows_cons_cons]
      exact (hR hr).joined rfl ih

lemma forall₂_imp_mem {R Q : List Row → β → Prop} (h : Forall₂ R rowss bs)
    (himp : ∀ rows ∈ rowss, ∀ b, R rows b → Q rows b) : Forall₂ Q rowss bs := by
  induction h with
  | nil => exact .nil
  | cons hr _ ih =>
    exact .cons (himp _ (by simp) _ hr) (ih fun rows hrows => himp rows (by simp [hrows]))

lemma length_le_commaRows (h : rows ∈ rowss) : rows.length ≤ (commaRows rowss).length := by
  induction rowss with
  | nil => cases h
  | cons us rowss ih =>
    cases rowss with
    | nil =>
      rw [commaRows_singleton]
      exact Nat.le_of_eq (congrArg List.length (mem_singleton.mp h))
    | cons =>
      rw [commaRows_cons_cons]
      simp only [length_append]
      rcases mem_cons.mp h with rfl | h
      · omega
      · have := ih h
        omega

end Lists

namespace Phrase

variable {rows rows' us : List Row} {n n' : Node} {rowss : List (List Row)} {ns : List Node}
  {c : Cursor} {p : Param Node}

lemma item {close : Symbol} (hclose : isClosing close) (h : Phrase .whole rows n)
    (hk : rows.length < k) : ItemReads (rules k).expression Node.unplaced close rows n where
  starts _ _ hover := h.starts.isStart hover
  reads c d hover hd := by
    refine h.expression hk hover ?_
    rcases hd with hd | hd <;> rw [hd]
    · decide
    · cases close <;> first | decide | cases hclose

lemma items {close : Symbol} (hclose : isClosing close)
    (h : Forall₂ (Phrase .whole) rowss ns) (hk : (commaRows rowss).length < k) :
    Forall₂ (ItemReads (rules k).expression Node.unplaced close) rowss ns :=
  forall₂_imp_mem h fun _ hrows _ hn =>
    hn.item hclose (Nat.lt_of_le_of_lt (length_le_commaRows hrows) hk)

lemma call (h : Phrase .chain rows n) (h' : Forall₂ (Phrase .whole) rowss ns) :
    Phrase .chain (rows ++ ([markRow .leftParen] ++ commaRows rowss ++ [markRow .rightParen]))
      (.call none n ns) := by
  refine ⟨h.starts.append _,
    h.balanced.append (balanced_commaRows h' fun _ _ hn => hn.balanced).parens, ?_⟩
  refine Opens.step h.reads ⟨_, _, rfl, by decide⟩ fun k c f e hk hover he => ?_
  obtain ⟨d, hopen, hrows, hclose, rfl, -⟩ := over_bracketed hover
  simp only [length_append, length_singleton] at hk
  have hitems := items (show isClosing .rightParen from rfl) h' (k := k) (by omega)
  obtain ⟨as, has, hasn⟩ := collectSeparated_over rfl hitems hrows (kind_of_mark hclose)
  refine ⟨.call c.current.place e as, ?_, by
    simp only [Node.unplaced, Node.unplacedList_eq_map, he, hasn]⟩
  unfold accessStep
  rw [bind_ok (here_run c), bind_ok (peek_run c), kind_of_mark hopen]
  change (advance >>= _) c = _
  rw [bind_ok (advance_run c), bind_ok (a := as) (d := d.next)]
  · rfl
  · unfold arguments
    rw [bind_ok (skip_list rfl hitems hrows (kind_of_mark hclose)), bind_ok has,
      bind_ok (expectSymbol_row hclose)]
    rfl

/-- A list literal: brackets around items that may have a comma behind them. -/
lemma collect_bracketed {α β : Type} {item : Parse α} {v : α → β} {bs : List β} {close : Symbol}
    (hclose : isClosing close) (hitems : Forall₂ (ItemReads item v close) rowss bs)
    (hover : Over ([markRow mark] ++ commaRows rowss ++ [markRow close]) c d)
    (wrap : Option Place → List α → Node) :
    ∃ as, (do
      let place ← here
      expectSymbol mark
      skipNewlines
      let as ← collectUntil (check (.symbol close)) (withComma item)
      expectSymbol close
      return wrap place as) c = .ok (wrap c.current.place as) d ∧ as.map v = bs := by
  obtain ⟨e, hopen, hrows, hrow, rfl, -⟩ := over_bracketed hover
  obtain ⟨as, has, hab⟩ := collectUntil_over hclose hitems hrows (kind_of_mark hrow)
  refine ⟨as, ?_, hab⟩
  rw [bind_ok (here_run c), bind_ok (expectSymbol_row hopen),
    bind_ok (skip_list hclose hitems hrows (kind_of_mark hrow)), bind_ok has,
    bind_ok (expectSymbol_row hrow)]
  rfl

lemma array (h : Forall₂ (Phrase .whole) rowss ns) :
    Phrase .chain ([markRow .leftBracket] ++ commaRows rowss ++ [markRow .rightBracket])
      (.array none ns) := by
  refine ⟨starts_cons _ rfl (by decide),
    .enclosed rfl (balanced_commaRows h fun _ _ hn => hn.balanced) rfl,
    Reads.opens ?_ ⟨_, _, rfl, rfl⟩⟩
  intro k c d hk hover hd
  simp only [length_append, length_singleton] at hk
  have hitems := items (show isClosing .rightBracket from rfl) h (k := k) (by omega)
  obtain ⟨as, has, hasn⟩ := collect_bracketed rfl hitems hover .array
  refine ⟨.array c.current.place as, ?_, by
    simp only [Node.unplaced, Node.unplacedList_eq_map, hasn]⟩
  change primary (rules k) c = _
  rw [primary_run, kind_of_mark (over_cons hover).1]
  exact has

/-! ### Objects -/

def IsKey (r : Row) (key : String) : Prop :=
  r = wordRow key ∧ wordKind key = .identifier ∨ r = stringRow key

lemma IsKey.kind {key : String} (h : IsKey r key) : r.kind = .identifier ∨ r.kind = .string := by
  rcases h with ⟨rfl, hword⟩ | rfl
  · exact Or.inl hword
  · exact Or.inr rfl

def PropertyRows (us : List Row) (e : Entry Node) : Prop :=
  ∃ r rows n, us = [r] ++ [markRow .colon] ++ rows ∧ IsKey r e.name ∧ e.value = some n ∧
    Phrase .whole rows n

lemma propertyKey_run {key : String} (h : c.current.row = r) (hkey : IsKey r key) :
    propertyKey c = .ok key c.next := by
  unfold propertyKey
  rcases hkey with ⟨rfl, hword⟩ | rfl
  · have hkind : c.current.kind = .identifier := (kind_of_row h).trans hword
    have hcheck : check .string c = .ok false c := by simp [hkind]
    rw [bind_ok hcheck, if_neg (by decide), expectName_run, hkind,
      if_pos (show isName .identifier from rfl), value_of_row h]
    rfl
  · have hcheck : check .string c = .ok true c := by simp [kind_of_row h, stringRow]
    rw [bind_ok hcheck, if_pos rfl, bind_ok (advance_run c), value_of_row h]
    rfl

lemma PropertyRows.item {e : Entry Node} (h : PropertyRows us e) (hk : us.length < k) :
    ItemReads (property (rules k)) Node.unplacedEntry .rightBrace us e := by
  obtain ⟨r, rows, n, rfl, hkey, hvalue, hphrase⟩ := h
  refine ⟨fun c d hover => ?_, fun c d hover hd => ?_⟩
  · obtain ⟨hrow, -⟩ := over_cons hover
    rw [kind_of_row hrow]
    rcases hkey.kind with hr | hr <;> rw [hr] <;> rfl
  · obtain ⟨hrow, hrest⟩ := over_cons hover
    obtain ⟨hcolon, hrows⟩ := over_cons hrest
    simp only [length_append, length_singleton] at hk
    obtain ⟨n', hread, hn⟩ := hphrase.expression (k := k) (by omega) hrows
      (by rcases hd with hd | hd <;> rw [hd] <;> decide)
    refine ⟨⟨e.name, some n'⟩, ?_, ?_⟩
    · unfold property
      rw [bind_ok (propertyKey_run hrow hkey), bind_ok (expectSymbol_row hcolon), bind_ok hread]
      rfl
    · cases e
      simp_all [Node.unplacedEntry]

lemma PropertyRows.balanced {e : Entry Node} (h : PropertyRows us e) : Balanced us := by
  obtain ⟨r, rows, n, rfl, hkey, -, hphrase⟩ := h
  have hlevel : isLevel r.kind := by
    rcases hkey.kind with hr | hr <;> rw [hr] <;> rfl
  exact (balanced_single hlevel).joined rfl hphrase.balanced

lemma opensObject_cons (h : t.kind ≠ .newline) (ts : List Token) :
    opensObject (t :: ts) = (t.kind == .symbol .rightBrace ||
      ((t.kind == .identifier || t.kind == .string) &&
        ts.head?.any (·.kind == .symbol .colon))) := by
  simp [opensObject, h]

lemma opensObject_properties {es : List (Entry Node)} (h : Forall₂ PropertyRows rowss es)
    (hover : Over (commaRows rowss ++ [markRow .rightBrace]) c d) : opensObject c.tokens := by
  cases h with
  | nil =>
    obtain ⟨hclose, -⟩ := over_single hover
    have hkind := kind_of_mark hclose
    rw [Cursor.tokens, opensObject_cons (by simp [hkind])]
    simp [hkind]
  | @cons us e rowss es hproperty _ =>
    obtain ⟨r, rows, n, rfl, hkey, -⟩ := hproperty
    obtain ⟨more, hmore⟩ : ∃ more, commaRows (([r] ++ [markRow .colon] ++ rows) :: rowss) =
        r :: markRow .colon :: more := by
      cases rowss with
      | nil => exact ⟨rows, commaRows_singleton _⟩
      | cons us rowss => exact ⟨_, commaRows_cons_cons _ us rowss⟩
    rw [hmore] at hover
    obtain ⟨hrow, hrest⟩ := over_cons hover
    have hcolon := kind_of_mark (over_cons hrest).1
    have hkind := hkey.kind
    rw [← kind_of_row hrow] at hkind
    rw [over_tokens hover, opensObject_cons (by rcases hkind with hr | hr <;> simp [hr])]
    rcases hkind with hr | hr <;> simp [hr, Cursor.tokens, hcolon]

lemma object {es : List (Entry Node)} (h : Forall₂ PropertyRows rowss es) :
    Phrase .chain ([markRow .leftBrace] ++ commaRows rowss ++ [markRow .rightBrace])
      (.object none es) := by
  have hobject : ∀ ⦃c d⦄,
      Over ([markRow .leftBrace] ++ commaRows rowss ++ [markRow .rightBrace]) c d →
        opensObject c.rest := by
    intro c d hover
    have htokens : c.rest = c.next.tokens := (List.cons.inj (over_tokens hover)).2
    rw [htokens]
    exact opensObject_properties h (over_cons hover).2
  refine ⟨fun c d hover => ⟨?_, fun _ => hobject hover⟩,
    .enclosed rfl (balanced_commaRows h fun _ _ hp => hp.balanced) rfl,
    Reads.opens ?_ ⟨_, _, rfl, rfl⟩⟩
  · rw [kind_of_mark (over_cons hover).1]
    rfl
  · intro k c d hk hover hd
    simp only [length_append, length_singleton] at hk
    have hitems :
        Forall₂ (ItemReads (property (rules k)) Node.unplacedEntry .rightBrace) rowss es :=
      forall₂_imp_mem h fun us hus e he =>
        he.item (Nat.lt_of_le_of_lt (length_le_commaRows hus) (by omega))
    obtain ⟨as, has, hasn⟩ := collect_bracketed rfl hitems hover .object
    refine ⟨.object c.current.place as, ?_, by
      simp only [Node.unplaced, Node.unplacedEntries_eq_map, hasn]⟩
    change primary (rules k) c = _
    rw [primary_run, kind_of_mark (over_cons hover).1]
    simp only [hobject hover, if_true]
    exact has

/-! ### Arrow functions -/

/-- A parameter without a type, and with or without a default value. -/
structure ParamRows (us : List Row) (p : Param Node) : Prop where
  name : wordKind p.name = .identifier
  written : p.written = none
  rows : p.default = none ∧ us = [wordRow p.name] ∨
    ∃ rows n, p.default = some n ∧ us = [wordRow p.name] ++ [markRow .assign] ++ rows ∧
      Phrase .whole rows n

lemma optionalType_none {r : Rules} (h : c.current.kind ≠ .symbol .colon) :
    optionalType r c = .ok none c := by
  unfold optionalType
  rw [bind_run, accept_run, if_neg h]
  rfl

lemma ParamRows.cons (h : ParamRows us p) :
    ∃ more, us = wordRow p.name :: more ∧ Balanced more := by
  rcases h.rows with ⟨-, rfl⟩ | ⟨rows, n, -, rfl, hphrase⟩
  · exact ⟨[], rfl, balanced_nil⟩
  · exact ⟨_, rfl, (balanced_single rfl : Balanced [markRow .assign]).append hphrase.balanced⟩

lemma ParamRows.balanced (h : ParamRows us p) : Balanced us := by
  obtain ⟨more, rfl, hmore⟩ := h.cons
  exact (balanced_single (isLevel_wordKind p.name)).append hmore

lemma ParamRows.item (h : ParamRows us p) (hk : us.length < k) :
    ItemReads (param (rules k)) Node.unplacedParam .rightParen us p where
  starts c d hover := by
    obtain ⟨more, rfl, -⟩ := h.cons
    rw [kind_of_row (over_cons hover).1]
    exact congrArg isStart h.name
  reads c d hover hd := by
    obtain ⟨name, written, value⟩ := p
    obtain ⟨hname, rfl, hrows⟩ := h
    rcases hrows with ⟨rfl, rfl⟩ | ⟨rows, n, rfl, rfl, hphrase⟩
    · obtain ⟨hrow, rfl, -⟩ := over_single hover
      have hcolon : c.next.current.kind ≠ .symbol .colon := by
        rcases hd with hd | hd <;> simp [hd]
      have hassign : accept (.symbol .assign) c.next = .ok false c.next := by
        rw [accept_run, if_neg]
        rcases hd with hd | hd <;> simp [hd]
      refine ⟨⟨name, none, none⟩, ?_, rfl⟩
      unfold param
      rw [bind_ok (expectIdentifier_run hrow hname), bind_ok (optionalType_none hcolon),
        bind_ok hassign]
      rfl
    · obtain ⟨hrow, hrest⟩ := over_cons hover
      obtain ⟨hassign, hvalue⟩ := over_cons hrest
      simp only [length_append, length_singleton] at hk
      obtain ⟨n', hread, hn⟩ := hphrase.expression (k := k) (by omega) hvalue
        (by rcases hd with hd | hd <;> rw [hd] <;> decide)
      have hcolon : c.next.current.kind ≠ .symbol .colon := by simp [kind_of_mark hassign]
      have hsome : (some <$> (rules k).expression) c.next.next = .ok (some n') d := by
        rw [map_eq_pure_bind, bind_ok hread]
        rfl
      refine ⟨⟨name, none, some n'⟩, ?_, by simp [Node.unplacedParam, hn]⟩
      unfold param
      rw [bind_ok (expectIdentifier_run hrow hname), bind_ok (optionalType_none hcolon),
        bind_ok (accept_row hassign), if_pos rfl, bind_ok hsome]
      rfl

end Phrase

lemma Reads.access (h : Reads 0 j rows n) (hj : 1 ≤ j)
    (hfirst : ∃ r us, rows = r :: us ∧ isUnaryOperator r.kind = false) : Reads 1 j rows n := by
  obtain ⟨r, us, rfl, hr⟩ := hfirst
  intro k c d hk hover hd
  obtain ⟨n', hread, hn⟩ := h hk hover hd
  exact ⟨n', (unary_over hr hover hread).trans
    (loop_inr (Nat.succ_pos _) (accessStep_stop (by omega))), hn⟩

namespace Phrase

variable {rows : List Row} {n : Node} {rowss : List (List Row)}

lemma arrowBody (h : Phrase .whole rows n) (hk : rows.length < k)
    (hover : Over rows c d) (hd : 10 < tightness d.current.kind) :
    ∃ n', Syntax.arrowBody (rules k) c = .ok (.value n') d ∧ n'.unplaced = n := by
  obtain ⟨n', hread, hn⟩ := h.expression hk hover hd
  refine ⟨n', ?_, hn⟩
  have hblock : (c.current.kind == .symbol .leftBrace && !opensObject c.rest) = false := by
    by_cases hbrace : c.current.kind = .symbol .leftBrace
    · simp [(h.starts hover).2 hbrace]
    · simp [hbrace]
  unfold Syntax.arrowBody
  rw [bind_ok (check_run _ c), bind_ok (atObject_run c), hblock, if_neg (by decide), bind_ok hread]
  rfl

lemma arrow {ps : List (Param Node)} (h : Forall₂ ParamRows rowss ps) (h' : Phrase .whole rows n) :
    Phrase .whole ([markRow .leftParen] ++ commaRows rowss ++ [markRow .rightParen] ++
      [markRow .arrow] ++ rows) (.arrow none ps (.value n)) := by
  have hparams : Balanced (commaRows rowss) := balanced_commaRows h fun _ _ hp => hp.balanced
  refine ⟨starts_cons _ rfl (by decide), hparams.parens.joined rfl h'.balanced, ?_⟩
  refine Reads.up (Reads.access (j := 10) ?_ (by decide) ⟨_, _, rfl, rfl⟩) (by decide)
  intro k c f hk hover hf
  obtain ⟨e, he, harrow, hbody, -⟩ := over_split hover
  have hahead : closesBeforeArrow 0 c.tokens = true := by
    rw [hparams.closesBeforeArrow he, kind_of_mark harrow]
    rfl
  obtain ⟨d, hopen, hrows, hclose, rfl, -⟩ := over_bracketed he
  simp only [length_append, length_singleton] at hk
  have hitems : Forall₂ (ItemReads (param (rules k)) Node.unplacedParam .rightParen) rowss ps :=
    forall₂_imp_mem h fun us hus p hp =>
      hp.item (Nat.lt_of_le_of_lt (length_le_commaRows hus) (by omega))
  obtain ⟨as, has, hasn⟩ := collectSeparated_over rfl hitems hrows (kind_of_mark hclose)
  obtain ⟨b, hb, hbn⟩ := h'.arrowBody (k := k) (by omega) hbody hf
  have hparams : params (rules k) c.next = .ok as d := by
    unfold params
    rw [bind_ok (skip_list rfl hitems hrows (kind_of_mark hclose)), has]
  refine ⟨.arrow c.current.place as (.value b), ?_, by
    simp only [Node.unplaced, Node.unplacedParams_eq_map, hasn, hbn]⟩
  change primary (rules k) c = _
  rw [primary_run, kind_of_mark hopen]
  simp only [hahead, if_true]
  unfold arrowFunction
  rw [bind_ok (here_run c), bind_ok (expectSymbol_row hopen), bind_ok hparams,
    bind_ok (expectSymbol_row hclose), bind_ok (expectSymbol_row harrow), bind_ok hb]
  rfl

end Phrase

end UiScript.Syntax
