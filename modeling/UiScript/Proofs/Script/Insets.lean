import UiScript.Proofs.Script.Shift
import UiScript.Proofs.Syntax.Outline
import UiScript.Script.Lower

/-!
# Where the parts of a node are written

A node is written as an expression, as a statement, as state or among markup, and its code holds the
code of its parts. For each of these seats the parts are listed here with their own seats, and with
what moves their code on its way into the code of the node. That is all that a step from a node to
one of its parts can do to a piece of code.
-/

namespace UiScript.Script

open List

/-! ### Seats -/

/-- Where a node stands in the code. -/
inductive Seat where
  | expression
  | statement
  /-- Among the lines of markup. What is looked for stands within one of the node's lines, or in
  code that has been split into lines. -/
  | child (split : Bool)
  deriving DecidableEq

/-- A part of a node, where it stands, and what moves its code into that of the node. -/
structure Inset where
  shifts : List Shift
  seat : Seat
  node : Node

/-- Parts that are written as expressions where they stand. -/
def inline (ns : List Node) : List Inset := ns.map fun n => ⟨[], .expression, n⟩

def inBlock (ns : List Node) : List Inset := ns.map fun n => ⟨[.block], .statement, n⟩

/-- Children whose lines stand where they are. -/
def children (split : Bool) (ns : List Node) : List Inset := ns.map fun n => ⟨[], .child split, n⟩

def nested (split : Bool) (ns : List Node) : List Inset :=
  ns.map fun n => ⟨if split then [.lines] else [], .child split, n⟩

/-- Markup within code, its lines moved as often as the list says. -/
def markup (shifts : List Shift) (n : Node) : List Inset :=
  [⟨shifts, .child true, n⟩, ⟨shifts, .child false, n⟩]

/-- The one conditional that an alternative consists of. -/
def soleIf? : List Node → Option Node
  | [n] => if isIf n then some n else none
  | _ => none

/-- The parts of an alternative, which are those of a block unless it is one conditional. -/
def elseInsets (sole : Node → Inset) (block : List Node → List Inset) :
    Option (List Node) → List Inset
  | none => []
  | some others =>
    match soleIf? others with
    | some n => [sole n]
    | none => block others

def isMarkup (n : Node) : Bool :=
  match roleOf n with
  | .markup => true
  | _ => false

/-- The parts of an expression. A bare name may be written without being one. -/
def exprInsets : Node → List Inset
  | .template _ ps => inline (Node.parts (.template none ps))
  | .binary _ _ a b | .pipe _ a b => inline [a, b]
  | .unary _ _ a => inline [a]
  | .assign _ target value =>
    inline ((if (bareName? target).isSome then [] else [target]) ++ [value])
  | .call _ callee arguments => inline (callee :: arguments.filter fun a => (bareName? a).isNone)
  | .member _ obj _ computed index => inline (obj :: if computed then index.toList else [])
  | .arrow _ ps (.block body) => inline (ps.filterMap (·.default)) ++ inBlock body
  | .arrow _ ps (.value body) => inline (ps.filterMap (·.default) ++ [body])
  | .array _ ns => inline ns
  | .object _ es | .use _ _ es _ _ => inline (es.filterMap (·.value))
  | .conditional _ condition consequent alternate => inline [condition, consequent, alternate]
  | n@(.element ..) => markup [.block] n
  | _ => []

def stateValue? : Node → Option Node
  | .state _ _ _ value => some value
  | _ => none

/-- The parts of a component's body, each by its role. State is written with more than one line, of
which the first one holds its value. -/
def memberInsets (n : Node) : List Inset :=
  match roleOf n with
  | .state _ => (stateValue? n).toList.map fun v => ⟨[.block], .expression, v⟩
  | .effect => [⟨[.block, .block, .block], .statement, n⟩]
  | .style | .markup => []
  | .other => [⟨[.block], .statement, n⟩]

/-- The parts of a statement. -/
def stmtInsets : Node → List Inset
  | .ifElse _ condition consequent alternate =>
    inline [condition] ++ inBlock consequent ++
      elseInsets (fun n => ⟨[], .statement, n⟩) inBlock alternate
  | .forEach _ _ iterable body => inline [iterable] ++ inBlock body
  | .returning _ value => inline value.toList
  | .expression _ a | .binding _ _ _ _ a | .state _ _ _ a => inline [a]
  | .block _ ns | .effect _ _ ns => inBlock ns
  | .component _ _ ps body =>
    (ps.filterMap (·.default)).map (fun v => ⟨[.block], .expression, v⟩) ++
      body.flatMap memberInsets ++ (body.find? isMarkup).toList.flatMap (markup [.block, .block])
  | .function _ _ ps _ body => inline (ps.filterMap (·.default)) ++ inBlock body
  | .exports _ _ declaration => declaration.toList.map fun n => ⟨[], .statement, n⟩
  | .style .. | .imports .. => []
  | n => [⟨[], .expression, n⟩]

/-- The parts of a child of markup. -/
def childInsets (split : Bool) : Node → List Inset
  | .element _ _ es ns _ =>
    (if split then [] else inline (es.filterMap (·.value))) ++ children split ns
  | n@(.use ..) => if split then [] else [⟨[], .expression, n⟩]
  | .text .. => []
  | .interpolation _ a => if split then [] else inline [a]
  | .ifElse _ condition consequent alternate =>
    (if split then [] else inline [condition]) ++ nested split consequent ++
      elseInsets (fun n => ⟨[], .child split, n⟩) (nested split) alternate
  | .forEach _ _ iterable body => (if split then [] else inline [iterable]) ++ nested split body
  | n => if split then [⟨[], .statement, n⟩] else []

def insets : Seat → Node → List Inset
  | .expression => exprInsets
  | .statement => stmtInsets
  | .child split => childInsets split

/-! ### What an action gives -/

/-- The action gives a value, from some state of the generator. -/
def Gives {α : Type} (m : Gen α) (a : α) : Prop := ∃ g g', m.run g = .ok (a, g')

namespace Gives

variable {α β : Type} {a : α} {m : Gen α} {f : α → Gen β} {b : β}

lemma of_pure {b : α} (h : Gives (Pure.pure a) b) : b = a := by
  obtain ⟨g, g', hrun⟩ := h
  cases hrun
  rfl

lemma of_bind (h : Gives (m >>= f) b) : ∃ a, Gives m a ∧ Gives (f a) b := by
  obtain ⟨g, g', hrun⟩ := h
  rw [StateT.run_bind] at hrun
  cases hm : m.run g with
  | error =>
    rw [hm] at hrun
    cases hrun
  | ok r =>
    rw [hm] at hrun
    exact ⟨r.1, ⟨g, r.2, hm⟩, r.2, g', hrun⟩

lemma of_bindPure {f : α → β} (h : Gives (m >>= fun a => Pure.pure (f a)) b) :
    ∃ a, Gives m a ∧ b = f a := by
  obtain ⟨a, ha, hb⟩ := h.of_bind
  exact ⟨a, ha, hb.of_pure⟩

lemma of_map {f : α → β} (h : Gives (f <$> m) b) : ∃ a, Gives m a ∧ b = f a := by
  rw [map_eq_pure_bind] at h
  exact h.of_bindPure

lemma of_withStateNames {change : List String → List String}
    (h : Gives (withStateNames change m) a) : Gives m a := by
  obtain ⟨g, -, h⟩ := h.of_bind
  obtain ⟨-, -, h⟩ := h.of_bind
  obtain ⟨b, hb, h⟩ := h.of_bind
  obtain ⟨-, -, h⟩ := h.of_bind
  exact h.of_pure ▸ hb

lemma of_rebinding {names : List String} (h : Gives (rebinding names m) a) : Gives m a :=
  h.of_withStateNames

/-- Each of some actions in order has given one of the values. -/
lemma of_inOrder {as : List α} {bs : List β} (h : Gives (inOrder (as.map f)) bs) :
    Forall₂ (fun a b => Gives (f a) b) as bs := by
  induction as generalizing bs with
  | nil =>
    rw [h.of_pure]
    exact .nil
  | cons a as ih =>
    obtain ⟨b, hb, hrest⟩ := h.of_bind
    obtain ⟨bs, hbs, rfl⟩ := hrest.of_bindPure
    exact .cons hb (ih hbs)

lemma exists_of_inOrder {as : List α} {bs : List β} (h : Gives (inOrder (as.map f)) bs) {a : α}
    (ha : a ∈ as) : ∃ b ∈ bs, Gives (f a) b :=
  Syntax.exists_of_mem_left h.of_inOrder ha

end Gives

/-! ### Pieces in view -/

def Has (code : String) (x : List Char) : Prop := x <:+: code.toList

def Among (split : Bool) (rows : List String) (x : List Char) : Prop :=
  ∃ code, Has code x ∧ (if split then Text.lines code else [code]) <:+: rows

namespace Has

variable {a b : String} {x : List Char}

lemma left (h : Has a x) : Has (a ++ b) x := by
  unfold Has at *
  rw [String.toList_append]
  exact h.trans (prefix_append _ _).isInfix

lemma right (h : Has b x) : Has (a ++ b) x := by
  unfold Has at *
  rw [String.toList_append]
  exact h.trans (suffix_append _ _).isInfix

lemma braced (h : Has a x) : Has (braced a) x := h.right.left

lemma intercalate {sep : String} {ss : List String} (h : Has a x) (ha : a ∈ ss) :
    Has (String.intercalate sep ss) x := by
  have hinfix := infix_intercalate sep ((singleton_infix_iff a ss).mpr ha)
    (cons_ne_nil _ _)
  rw [String.intercalate_singleton] at hinfix
  exact h.trans hinfix

lemma row {rows : List String} (h : Has a x) (ha : a ∈ rows) : Among false rows x :=
  ⟨a, h, (singleton_infix_iff _ _).mpr ha⟩

/-- Code that is moved to the right, between braces. -/
lemma indent (h : Has a x) (hx : Solid x) :
    Has (Script.braced ("\n" ++ Text.indent 1 a ++ "\n")) (moved [.block] x) :=
  braced (left (right (infix_indent hx h)))

end Has

namespace Among

variable {split : Bool} {rows : List String} {x : List Char}

lemma mono {rows' : List String} (h : Among split rows x) (hrows : rows <:+: rows') :
    Among split rows' x := by
  obtain ⟨code, hx, hcode⟩ := h
  exact ⟨code, hx, hcode.trans hrows⟩

lemma unlines (h : Among split rows x) : Has (Text.unlines rows) x := by
  obtain ⟨code, hx, hcode⟩ := h
  cases split with
  | true =>
    have hinfix := infix_intercalate "\n" hcode (lines_ne_nil code)
    rw [← Text.unlines, ← Text.unlines, if_pos rfl, unlines_lines] at hinfix
    exact hx.trans hinfix
  | false => exact hx.intercalate ((singleton_infix_iff _ _).mp hcode)

lemma nested (h : Among split rows x) :
    Among split (rows.map ("  " ++ ·)) (moved (if split then [.lines] else []) x) := by
  obtain ⟨code, hx, hcode⟩ := h
  cases split with
  | true =>
    obtain ⟨before, after, heq⟩ := hx
    refine ⟨"  " ++ String.ofList (padFeeds true code.toList), Has.right ?_, ?_⟩
    · rw [Has, String.toList_ofList, ← heq, padFeeds_true_append, padFeeds_true_append]
      exact infix_append _ _ _
    · rw [if_pos rfl, ← lines_padFeeds]
      exact hcode.map _
  | false => exact ⟨"  " ++ code, hx.right, hcode.map ("  " ++ ·)⟩

/-- A text in front of the first line. -/
lemma head {a first : String} {rest : List String} (h : Among split (first :: rest) x)
    (ha : '\n' ∉ a.toList) : Among split ((a ++ first) :: rest) x := by
  obtain ⟨code, hx, hcode⟩ := h
  rcases infix_cons_iff.mp hcode with hstart | hlater
  · refine ⟨a ++ code, hx.right, IsPrefix.isInfix ?_⟩
    cases split with
    | true =>
      obtain ⟨line, lines, hlines⟩ := exists_cons_of_ne_nil (lines_ne_nil code)
      rw [if_pos rfl, hlines, cons_prefix_cons] at hstart
      rw [if_pos rfl, lines_append ha hlines, hstart.1]
      exact cons_prefix_cons.mpr ⟨rfl, hstart.2⟩
    | false =>
      obtain ⟨rfl, -⟩ := cons_prefix_cons.mp hstart
      exact cons_prefix_cons.mpr ⟨rfl, nil_prefix⟩
  · exact ⟨code, hx, infix_cons hlater⟩

end Among

/-! ### Nodes that are written -/

/-- The node has been written in a seat, with the pieces of its code in view. -/
def Seen : Seat → Node → (List Char → Prop) → Prop
  | .expression, n, V => ∃ code, Gives (lower n).expr code ∧ V = Has code
  | .statement, n, V => ∃ code, Gives (lower n).stmt code ∧ V = Has code
  | .child split, n, V => ∃ parent rows, Gives ((lower n).child parent) rows ∧ V = Among split rows

/-- The part has been written, and its pieces are in view as its shifts leave them. -/
def Inset.Shown (i : Inset) (V : List Char → Prop) : Prop :=
  ∃ W, Seen i.seat i.node W ∧ ∀ x, Solid x → W x → V (moved i.shifts x)

lemma Inset.Shown.mono {i : Inset} {V W : List Char → Prop} (h : i.Shown V)
    (hVW : ∀ {x}, V x → W x) : i.Shown W := by
  obtain ⟨U, hU, hshown⟩ := h
  exact ⟨U, hU, fun x hx hUx => hVW (hshown x hx hUx)⟩

lemma Inset.Shown.shift {i : Inset} {V W : List Char → Prop} {ss : List Shift} (h : i.Shown V)
    (hVW : ∀ {x}, Solid x → V x → W (moved ss x)) :
    Inset.Shown ⟨i.shifts ++ ss, i.seat, i.node⟩ W := by
  obtain ⟨U, hU, hshown⟩ := h
  refine ⟨U, hU, fun x hx hUx => ?_⟩
  rw [moved_append]
  exact hVW (solid_moved hx _) (hshown x hx hUx)

variable {n : Node}

lemma shown_expr {code : String} (h : Gives (lower n).expr code) :
    Inset.Shown ⟨[], .expression, n⟩ (Has code) :=
  ⟨_, ⟨code, h, rfl⟩, fun _ _ hx => hx⟩

lemma shown_stmt {code : String} (h : Gives (lower n).stmt code) :
    Inset.Shown ⟨[], .statement, n⟩ (Has code) :=
  ⟨_, ⟨code, h, rfl⟩, fun _ _ hx => hx⟩

lemma shown_child {parent : String} {rows : List String} (h : Gives ((lower n).child parent) rows)
    (split : Bool) : Inset.Shown ⟨[], .child split, n⟩ (Among split rows) :=
  ⟨_, ⟨parent, rows, h, rfl⟩, fun _ _ hx => hx⟩

/-- All of some parts have been written, with their pieces in view. -/
def Shown (is : List Inset) (V : List Char → Prop) : Prop := ∀ i ∈ is, i.Shown V

namespace Shown

variable {i : Inset} {is is' : List Inset} {V W : List Char → Prop}

lemma nil : Shown [] V := forall_mem_nil _

lemma single (h : i.Shown V) : Shown [i] V := forall_mem_singleton.mpr h

lemma cons (h : i.Shown V) (h' : Shown is V) : Shown (i :: is) V := forall_mem_cons.mpr ⟨h, h'⟩

lemma append (h : Shown is V) (h' : Shown is' V) : Shown (is ++ is') V :=
  forall_mem_append.mpr ⟨h, h'⟩

lemma mono (h : Shown is V) (hVW : ∀ {x}, V x → W x) : Shown is W :=
  fun i hi => (h i hi).mono hVW

lemma expr {code : String} (h : Gives (lower n).expr code) : Shown (inline [n]) (Has code) :=
  .single (shown_expr h)

end Shown

end UiScript.Script
