import UiScript.Proofs.Script.Printing
import UiScript.Proofs.Syntax.Elements

/-!
# Markup as it is written

A tree of tags is written as text, with line feeds and indentation between attributes and between
children, and the text is read as the tree again. A closing tag that names another tag than the
opening one is part of the text but not of the tree: it is what the reader complains about.
-/

namespace UiScript.Markup

open List

open Syntax
open Token (Row Spells Heads Inline Breaks Anything markRow wordRow stringRow newlineRow isGapBlank
  isIdentifierChar heads_cons spells_word isWord spells_blank spells_alone spells_single)

/-! ### Trees -/

structure Name where
  text : String
  valid : Script.isIdentifier text

structure TagName extends Name where
  letter : text.toList.head?.any isAsciiLetter

/-- A tag that starts with a capital is an instance of a component. -/
def TagName.isComponent (name : TagName) : Bool := name.text.toList.head?.any isAsciiUpper

/-- A name or a keyword. -/
structure Word where
  text : String
  valid : isWord text

/-- A string that can stand between quotes. -/
structure Literal where
  value : String
  valid : value.toList.all Token.isWritable

structure Code where
  expr : Node
  printable : Script.isPrintable expr
  noPipes : expr.applied = expr

/-- Line feeds, each with some blanks behind it. -/
structure Gap where
  indents : List Nat

inductive AttributeName where
  | event (name : Word)
  | words (first : Word) (more : List Word)

inductive AttributeValue where
  | quoted (value : Literal)
  | code (e : Code)

/-- What stands in front of an attribute: a blank, line feeds or both. -/
structure Separator where
  blank : Bool
  gap : Gap
  apart : blank ∨ gap.indents ≠ []

structure Attribute where
  lead : Separator
  name : AttributeName
  value : Option AttributeValue

/-- A tag and its attributes. An instance of a component has no bare ones. -/
structure Head where
  name : TagName
  attributes : List Attribute
  valued : name.isComponent → ∀ a ∈ attributes, a.value.isSome
  gap : Gap

mutual

/-- A tag, alone or with children. The name in its closing tag may be a wrong one. -/
inductive Tag where
  | closed (head : Head)
  | paired (head : Head) (inner : Children) (closing : Name)

inductive Children where
  | nil (gap : Gap)
  | cons (gap : Gap) (child : Child) (more : Children)

inductive Child where
  | quoted (value : Literal)
  | code (e : Code)
  | tag (t : Tag)
  | branch (b : Branch)
  | each (name : Name) (e : Code) (body : Body)

/-- A conditional: without an alternative, with one, or with another conditional as one. -/
inductive Branch where
  | only (condition : Code) (body : Body)
  | orElse (condition : Code) (body alternate : Body)
  | orBranch (condition : Code) (body : Body) (alternate : Branch)

/-- The tags in a block. -/
inductive Body where
  | nil (gap : Gap)
  | cons (gap : Gap) (t : Tag) (more : Body)

end

/-! ### Texts -/

def Code.text (e : Code) : String :=
  ((Script.lower e.expr).expr.run { title := "" }).toOption.elim "" (·.1)

/-- A text between braces. -/
def braced (s : String) : String := "\x7b" ++ s ++ "\x7d"

def Gap.text (gap : Gap) : String :=
  gap.indents.foldr (fun n s => "\n" ++ String.ofList (List.replicate n ' ') ++ s) ""

def Separator.text (lead : Separator) : String := (if lead.blank then " " else "") ++ lead.gap.text

def AttributeName.text : AttributeName → String
  | .event name => "@" ++ name.text
  | .words first more => hyphenated first.text (more.map (·.text))

def AttributeValue.text : AttributeValue → String
  | .quoted value => Script.stringLiteral value.value
  | .code e => braced e.text

def Attribute.text (a : Attribute) : String :=
  a.lead.text ++ (a.name.text ++ (a.value.elim "" fun v => "=" ++ v.text))

def Head.text (head : Head) : String :=
  "<" ++ head.name.text ++ (head.attributes.foldr (fun a s => a.text ++ s) head.gap.text)

mutual

def Tag.text : Tag → String
  | .closed head => head.text ++ "/>"
  | .paired head inner closing => head.text ++ (">" ++ inner.text ++ ("</" ++ closing.text ++ ">"))

def Children.text : Children → String
  | .nil gap => gap.text
  | .cons gap child more => gap.text ++ child.text ++ more.text

def Child.text : Child → String
  | .quoted value => Script.stringLiteral value.value
  | .code e => braced e.text
  | .tag t => t.text
  | .branch b => braced b.text
  | .each name e body =>
    braced ("for " ++ name.text ++ " in " ++ e.text ++ " " ++ braced body.text)

def Branch.text : Branch → String
  | .only condition body => "if " ++ condition.text ++ " " ++ braced body.text
  | .orElse condition body alternate =>
    "if " ++ condition.text ++ " " ++ (braced body.text ++ " else ") ++ braced alternate.text
  | .orBranch condition body alternate =>
    "if " ++ condition.text ++ " " ++ (braced body.text ++ " else ") ++ alternate.text

def Body.text : Body → String
  | .nil gap => gap.text
  | .cons gap t more => gap.text ++ t.text ++ more.text

end

/-! ### Nodes -/

def AttributeValue.node : AttributeValue → Node
  | .quoted value => .string none value.value
  | .code e => e.expr.unplaced

def Attribute.entry (a : Attribute) : Entry Node := ⟨a.name.text, a.value.map (·.node)⟩

def Head.node (head : Head) (inner : List Node) (closed : Bool) : Node :=
  if head.name.isComponent then
    .use none head.name.text (head.attributes.map (·.entry)) inner closed
  else .element none head.name.text (head.attributes.map (·.entry)) inner closed

mutual

/-- The node of a tree, without places. -/
def Tag.node : Tag → Node
  | .closed head => head.node [] true
  | .paired head inner _ => head.node inner.nodes false

def Children.nodes : Children → List Node
  | .nil _ => []
  | .cons _ child more => child.node :: more.nodes

def Child.node : Child → Node
  | .quoted value => .text none value.value
  | .code e => .interpolation none e.expr.unplaced
  | .tag t => t.node
  | .branch b => b.node
  | .each name e body => .forEach none name.text e.expr.unplaced body.nodes

def Branch.node : Branch → Node
  | .only condition body => .ifElse none condition.expr.unplaced body.nodes none
  | .orElse condition body alternate =>
    .ifElse none condition.expr.unplaced body.nodes (some alternate.nodes)
  | .orBranch condition body alternate =>
    .ifElse none condition.expr.unplaced body.nodes (some [alternate.node])

def Body.nodes : Body → List Node
  | .nil _ => []
  | .cons _ t more => t.node :: more.nodes

end

mutual

/-- The closing tags that name another tag than the one that they close, as they are come across:
the name of the opening tag and the name in the closing one. -/
def Tag.mismatches : Tag → List (String × String)
  | .closed _ => []
  | .paired head inner closing =>
    inner.mismatches ++ closingFaults head.name.text closing.text

def Children.mismatches : Children → List (String × String)
  | .nil _ => []
  | .cons _ child more => child.mismatches ++ more.mismatches

def Child.mismatches : Child → List (String × String)
  | .quoted _ | .code _ => []
  | .tag t => t.mismatches
  | .branch b => b.mismatches
  | .each _ _ body => body.mismatches

def Branch.mismatches : Branch → List (String × String)
  | .only _ body => body.mismatches
  | .orElse _ body alternate => body.mismatches ++ alternate.mismatches
  | .orBranch _ body alternate => body.mismatches ++ alternate.mismatches

def Body.mismatches : Body → List (String × String)
  | .nil _ => []
  | .cons _ t more => t.mismatches ++ more.mismatches

end

/-! ### Spelling -/

/-- A text that starts with a character of some kind, whatever follows it. -/
def Leads (p : Char → Bool) (s : String) : Prop := ∀ rest, Heads p (s.toList ++ rest)

variable {p : Char → Bool} {s word lead code : String} {cs : List Char} {rows : List Row}

lemma leads_cons {c : Char} (hs : s.toList = c :: cs) (hc : p c) : Leads p s := by
  intro rest
  rw [hs]
  exact heads_cons _ hc

lemma Leads.append (h : Leads p s) (t : String) : Leads p (s ++ t) := by
  intro rest
  rw [String.toList_append, append_assoc]
  exact h _

lemma leads_word (h : isWord word)
    (hp : ∀ c, Token.isIdentifierStart c → p c) : Leads p word := by
  obtain ⟨c, cs, hword, hstart, -⟩ := Token.isWord_iff h
  exact leads_cons hword (hp c hstart)

/-- What may follow a part of markup: neither a blank nor an equals sign. -/
def isEdge (c : Char) : Bool := c != '=' && !isGapBlank c

lemma isEdge_of_start (c : Char) (h : Token.isIdentifierStart c) : isEdge c := by
  have hfirst : Token.isFirst c := by simp [Token.isFirst, Token.isIdentifierChar_of_start h]
  have hblank := Token.not_isGapBlank_of_first hfirst
  have hsecond := Token.not_isSecond_of_first hfirst
  have hassign : c ≠ '=' := by
    rintro rfl
    exact absurd hsecond (by decide)
  simp [isEdge, hassign, hblank]

lemma not_isGapBlank_of_edge (h : Heads isEdge cs) : Heads (!isGapBlank ·) cs :=
  h.mono fun _ hc => (Bool.and_eq_true_iff.mp hc).2

lemma ne_assign_of_edge (h : Heads isEdge cs) : Heads (· != '=') cs :=
  h.mono fun _ hc => (Bool.and_eq_true_iff.mp hc).1

/-- A text that can stand next to others like it, and its rows. -/
structure Laid (s : String) (rows : List Row) : Prop where
  edge : ∀ rest, Heads isEdge rest → Heads isEdge (s.toList ++ rest)
  spells : Spells (Heads isEdge) s rows

lemma Laid.append {t : String} {rows' : List Row} (hs : Laid s rows) (ht : Laid t rows') :
    Laid (s ++ t) (rows ++ rows') where
  edge rest hrest := by
    rw [String.toList_append, append_assoc]
    exact hs.edge _ (ht.edge rest hrest)
  spells := hs.spells.append ht.spells ht.edge

lemma Leads.laid (h : Leads isEdge s) (hs : Spells (Heads isEdge) s rows) : Laid s rows :=
  ⟨fun rest _ => h rest, hs⟩

/-! ### Gaps -/

lemma spells_newline : Spells Anything "\n" [newlineRow] :=
  Token.spells_piece (c := '\n') (t := []) rfl fun rest _ => Token.lexeme_newline rest

lemma spells_blanks (n : Nat) :
    Spells (Heads (!isGapBlank ·)) (String.ofList (List.replicate n ' ')) [] := by
  cases n with
  | zero => exact Spells.empty.anywhere
  | succ n =>
    refine Token.spells_piece (c := ' ') (t := List.replicate n ' ') (x := .gap) ?_
      fun rest hrest => ?_
    · rw [String.toList_ofList, replicate_succ]
    · rw [Token.lexeme_blank rfl, Token.takeWhile_append_heads (by simp [isGapBlank]) hrest]

lemma isGap_replicate (n : Nat) : IsGap (List.replicate n newlineRow) := by
  intro r hr
  rw [eq_of_mem_replicate hr]
  rfl

/-- A gap starts with a line feed, if it is not empty. -/
lemma Gap.heads (gap : Gap) (hp : p '\n') {rest : List Char} (h : Heads p rest) :
    Heads p (gap.text.toList ++ rest) := by
  unfold Gap.text
  cases gap.indents with
  | nil => exact h
  | cons =>
    rw [foldr_cons, String.toList_append, String.toList_append]
    exact heads_cons _ hp

lemma Gap.laid (gap : Gap) : ∃ rows, IsGap rows ∧ Laid gap.text rows := by
  refine ⟨List.replicate gap.indents.length newlineRow, isGap_replicate _,
    fun rest hrest => gap.heads (by decide) hrest, ?_⟩
  unfold Gap.text
  induction gap.indents with
  | nil => exact Spells.empty.anywhere
  | cons n indents ih =>
    have hline : Spells (Heads (!isGapBlank ·)) ("\n" ++ String.ofList (List.replicate n ' '))
        [newlineRow] := spells_newline.append (spells_blanks n) fun _ _ => trivial
    exact hline.append ih fun rest hrest =>
      not_isGapBlank_of_edge (Gap.heads ⟨indents⟩ (by decide) hrest)

/-- What follows a name: no character of a name. -/
abbrev Apart : List Char → Prop := Heads (!isIdentifierChar ·)

lemma Separator.spec (lead : Separator) : ∃ rows, IsGap rows ∧
    Spells (Heads isEdge) lead.text rows ∧ Leads (!isIdentifierChar ·) lead.text := by
  obtain ⟨rows, hgap, hlaid⟩ := lead.gap.laid
  refine ⟨rows, hgap, ?_⟩
  unfold Separator.text
  by_cases hblank : lead.blank
  · rw [if_pos hblank]
    exact ⟨spells_blank.append hlaid.spells fun rest hrest =>
      not_isGapBlank_of_edge (hlaid.edge rest hrest),
      (leads_cons (s := " ") rfl (by decide)).append _⟩
  · obtain ⟨n, indents, hindents⟩ := exists_cons_of_ne_nil (lead.apart.resolve_left hblank)
    rw [if_neg hblank, String.empty_append]
    refine ⟨hlaid.spells, ?_⟩
    rw [Gap.text, hindents, foldr_cons]
    exact ((leads_cons (s := "\n") rfl (by decide)).append _).append _

/-! ### Code -/

lemma Code.spec (e : Code) : ∃ rows, Inline e.text rows ∧ Phrase .whole rows e.expr.unplaced := by
  obtain ⟨code, rows, hwrites, htext, hphrase⟩ := (Script.readsBack e.expr e.printable).whole
  have hcode : e.text = code := by
    rw [Code.text, hwrites { title := "" } rfl rfl]
    rfl
  rw [e.noPipes] at hphrase
  exact ⟨rows, hcode ▸ htext, hphrase⟩

lemma leads_braced (hp : p '\x7b') (s : String) : Leads p (braced s) :=
  ((leads_cons (s := "\x7b") rfl hp).append s).append _

lemma spells_braced {follows : List Char → Prop} (h : Spells follows s rows)
    (hclose : ∀ rest, follows ('\x7d' :: rest)) :
    Spells Anything (braced s) ([markRow .leftBrace] ++ rows ++ [markRow .rightBrace]) := by
  have hopen : Spells Anything Symbol.leftBrace.spelling [markRow .leftBrace] := spells_alone rfl
  have hend : Spells Anything Symbol.rightBrace.spelling [markRow .rightBrace] := spells_alone rfl
  exact (hopen.append h fun _ _ => trivial).append hend fun rest _ => hclose rest

lemma spells_braced_code (h : Inline s rows) :
    Spells Anything (braced s) ([markRow .leftBrace] ++ rows ++ [markRow .rightBrace]) :=
  spells_braced h.spells fun _ => Token.breaks_cons _ rfl

lemma spells_braced_laid (h : Laid s rows) :
    Spells Anything (braced s) ([markRow .leftBrace] ++ rows ++ [markRow .rightBrace]) :=
  spells_braced h.spells fun _ => heads_cons _ rfl

lemma laid_braced (h : Laid s rows) :
    Laid (braced s) ([markRow .leftBrace] ++ rows ++ [markRow .rightBrace]) :=
  (leads_braced (by decide) s).laid (spells_braced_laid h).anywhere

/-! ### Attributes -/

lemma spells_hyphenated {name : String} (h : Spells Apart name rows) (words : List Word) :
    Spells Apart (hyphenated name (words.map (·.text)))
      (rows ++ hyphenRows (words.map (·.text))) := by
  induction words generalizing name rows with
  | nil => rwa [hyphenRows, map_nil, flatMap_nil, append_nil]
  | cons word words ih =>
    have hminus : Spells Anything Symbol.minus.spelling [markRow .minus] := spells_alone rfl
    have hmore :=
      ih ((h.append_cons hminus rfl rfl).append (spells_word word.valid) fun _ _ => trivial)
    rw [append_assoc, append_assoc] at hmore
    exact hmore

lemma leads_hyphenated {name : String} (h : Leads p name) (words : List String) :
    Leads p (hyphenated name words) := by
  induction words generalizing name with
  | nil => exact h
  | cons word words ih => exact ih ((h.append "-").append word)

lemma AttributeName.spec (name : AttributeName) : ∃ rows, NameRows rows name.text ∧
    Spells Apart name.text rows ∧ Leads isEdge name.text := by
  cases name with
  | event word =>
    have hat : Spells Anything Symbol.atSign.spelling [markRow .atSign] := spells_alone rfl
    exact ⟨_, nameRows_event word.text,
      hat.append (spells_word word.valid) fun _ _ => trivial,
      (leads_cons (s := "@") rfl (by decide)).append _⟩
  | words first more =>
    exact ⟨_, nameRows_words first.text (more.map (·.text)),
      spells_hyphenated (spells_word first.valid) more,
      leads_hyphenated (leads_word first.valid isEdge_of_start) _⟩

lemma AttributeValue.spec (v : AttributeValue) : ∃ us, Spells Anything v.text us ∧
    ∀ ⦃rows : List Row⦄ ⦃name : String⦄, NameRows rows name →
      AttributeRows (rows ++ [markRow .assign] ++ us) ⟨name, some v.node⟩ := by
  cases v with
  | quoted value =>
    exact ⟨_, Token.spells_string value.valid, fun rows name h => h.text value.value⟩
  | code e =>
    obtain ⟨us, htext, hphrase⟩ := e.spec
    exact ⟨_, spells_braced_code htext, fun rows name h => h.code hphrase⟩

lemma AttributeValue.leads (v : AttributeValue) : Leads (!Token.isSecond ·) v.text := by
  cases v with
  | quoted value => exact leads_cons (Script.stringLiteral_toList value.value) (by decide)
  | code e => exact leads_braced (by decide) e.text

lemma Attribute.spec (a : Attribute) : ∃ gap rows, IsGap gap ∧ AttributeRows rows a.entry ∧
    Spells Apart a.text (gap ++ rows) ∧ Leads (!isIdentifierChar ·) a.text := by
  obtain ⟨gap, hgap, hlead, hapart⟩ := a.lead.spec
  obtain ⟨rows, hname, hspells, hleads⟩ := a.name.spec
  cases hvalue : a.value with
  | none =>
    refine ⟨gap, rows, hgap, ?_, ?_, hapart.append _⟩
    · rw [Attribute.entry, hvalue]
      exact hname.bare
    · rw [Attribute.text, hvalue, Option.elim_none, String.append_empty]
      exact hlead.append hspells fun rest _ => hleads rest
  | some v =>
    obtain ⟨us, htext, hassigned⟩ := v.spec
    have hassign : Spells (Heads (!Token.isSecond ·)) "=" [markRow .assign] :=
      Token.spells_symbol .assign
    have hequals : Leads (!isIdentifierChar ·) ("=" ++ v.text) :=
      (leads_cons (s := "=") rfl (by decide)).append _
    have hfull :
        Spells Anything (a.name.text ++ ("=" ++ v.text)) (rows ++ ([markRow .assign] ++ us)) :=
      hspells.append (hassign.append htext fun rest _ => v.leads rest) fun rest _ => hequals rest
    refine ⟨gap, rows ++ ([markRow .assign] ++ us), hgap, ?_, ?_, hapart.append _⟩
    · rw [Attribute.entry, hvalue, ← append_assoc]
      exact hassigned hname
    · rw [Attribute.text, hvalue, Option.elim_some]
      exact hlead.append hfull.anywhere fun rest _ => hleads.append _ rest

/-- What follows the attributes of a tag: the end of the tag. -/
def isClose (c : Char) : Bool := c == '/' || c == '>'

lemma isClose_cases {c : Char} (h : isClose c) : isEdge c ∧ !isIdentifierChar c := by
  rcases Bool.or_eq_true_iff.mp h with h | h <;> rw [eq_of_beq h] <;> decide

lemma attributes_spec (gap : Gap) (as : List Attribute) :
    ∃ rows, AttributesRows rows (as.map (·.entry)) ∧
      Spells (Heads isClose) (as.foldr (fun a s => a.text ++ s) gap.text) rows ∧
      ∀ rest, Heads isClose rest →
        Apart ((as.foldr (fun a s => a.text ++ s) gap.text).toList ++ rest) := by
  induction as with
  | nil =>
    obtain ⟨rows, hgap, hlaid⟩ := gap.laid
    exact ⟨rows, attributesRows_nil hgap,
      hlaid.spells.weaken fun _ h => h.mono fun _ hc => (isClose_cases hc).1,
      fun rest hrest => gap.heads (by decide) (hrest.mono fun _ hc => (isClose_cases hc).2)⟩
  | cons a as ih =>
    obtain ⟨rows, hrows, hspells, hapart⟩ := ih
    obtain ⟨lead, us, hgap, hus, hattribute, hleads⟩ := a.spec
    exact ⟨lead ++ us ++ rows, hrows.cons hgap hus, hattribute.append hspells hapart,
      fun rest _ => hleads.append _ rest⟩

/-! ### Tags -/

/-- A bracket is read as itself if no equals sign follows. -/
lemma spells_bracket {mark : Symbol} (h : mark = .lt ∨ mark = .gt) :
    Spells (Heads (· != '=')) mark.spelling [markRow mark] := by
  have hdouble {c : Char} (hc : c = '<' ∨ c = '>') {rest : List Char}
      (hrest : Heads (· != '=') rest) :
      ∀ m ∈ Symbol.double, ¬ m.spelling.toList <+: c :: rest := by
    intro m hm hstart
    obtain ⟨x, y, hxy, -⟩ := Token.isSecond_of_double hm
    rw [hxy] at hstart
    obtain ⟨rfl, more, rfl⟩ := cons_prefix_cons.mp hstart
    have hy : y = '=' := by
      rcases hc with rfl | rfl <;> cases m <;> first | (cases hxy; rfl) | cases hxy
    exact absurd (hrest y rfl) (by simp [hy])
  rcases h with rfl | rfl
  · exact spells_single (c := '<') rfl (by decide) (by simp) fun rest => hdouble (.inl rfl)
  · exact spells_single (c := '>') rfl (by decide) (by simp) fun rest => hdouble (.inr rfl)

/-- What follows a slash that starts no comment. -/
def isPlain (c : Char) : Bool := c != '/' && c != '*'

lemma isPlain_of_start (c : Char) (h : Token.isIdentifierStart c) : isPlain c := by
  by_contra hnot
  simp only [isPlain, Bool.and_eq_true, bne_iff_ne, not_and_or, not_not] at hnot
  rcases hnot with rfl | rfl <;> exact absurd h (by decide)

lemma spells_slash : Spells (Heads isPlain) Symbol.slash.spelling [markRow .slash] := by
  refine spells_single (c := '/') rfl (by decide) (fun rest hrest _ => ?_)
    fun rest _ m hm hstart => ?_
  · constructor <;> intro hhead <;> exact absurd (hrest _ hhead) (by decide)
  · cases m <;> first
      | exact absurd (cons_prefix_cons.mp hstart).1 (by decide)
      | exact absurd hm (by decide)

lemma spells_gt : Spells (Heads isEdge) ">" [markRow .gt] :=
  (spells_bracket (.inr rfl)).weaken fun _ => ne_assign_of_edge

lemma Name.isWord (name : Name) : isWord name.text := (Script.isIdentifier_iff name.valid).1

lemma Name.kind (name : Name) : Token.wordKind name.text = .identifier :=
  (Script.isIdentifier_iff name.valid).2

lemma TagName.isTagName (name : TagName) : isTagName (Token.wordKind name.text) name.text := by
  rw [name.kind, Syntax.isTagName, name.letter]
  rfl

lemma Name.laid_closing (name : Name) :
    Laid ("</" ++ name.text ++ ">")
      [markRow .lt, markRow .slash, wordRow name.text, markRow .gt] := by
  have hmarks : Spells (Heads isPlain) "</" ([markRow .lt] ++ [markRow .slash]) :=
    Spells.append (s := "<") (t := "/") (spells_bracket (.inl rfl)) spells_slash
      fun _ _ => heads_cons _ rfl
  have hname : Spells Apart ("</" ++ name.text)
      ([markRow .lt] ++ [markRow .slash] ++ [wordRow name.text]) :=
    hmarks.append (spells_word name.isWord) fun rest _ =>
      leads_word name.isWord isPlain_of_start rest
  have hleads : Leads isEdge ("</" ++ name.text ++ ">") :=
    ((leads_cons (s := "</") rfl (by decide)).append _).append _
  exact hleads.laid (hname.append_cons spells_gt rfl rfl)

lemma Head.spec (head : Head) : ∃ attrs,
    AttributesRows attrs (head.attributes.map (·.entry)) ∧
      Spells (Heads isClose) head.text ([markRow .lt, wordRow head.name.text] ++ attrs) := by
  obtain ⟨attrs, hattrs, hspells, hapart⟩ := attributes_spec head.gap head.attributes
  refine ⟨attrs, hattrs, ?_⟩
  have hname : Spells Apart ("<" ++ head.name.text) ([markRow .lt] ++ [wordRow head.name.text]) :=
    (spells_bracket (.inl rfl)).append (spells_word head.name.isWord) fun rest _ =>
      ne_assign_of_edge (leads_word head.name.isWord isEdge_of_start rest)
  exact hname.append hspells hapart

lemma Head.leads (head : Head) : Leads isEdge head.text :=
  ((leads_cons (s := "<") rfl (by decide)).append _).append _

/-- An instance of a component keeps all of its attributes. -/
lemma Head.tagged_eq (head : Head) (inner : List Node) (closed : Bool) :
    tagged head.name.text (head.attributes.map (·.entry)) inner closed =
      head.node inner closed := by
  unfold tagged Head.node
  by_cases hcomponent : head.name.isComponent
  · have hvalues : (head.attributes.map (·.entry)).filter (·.value.isSome) =
        head.attributes.map (·.entry) := by
      refine filter_eq_self.mpr fun e he => ?_
      obtain ⟨a, ha, rfl⟩ := mem_map.mp he
      simpa [Attribute.entry] using head.valued hcomponent a ha
    rw [if_pos hcomponent, hvalues]
    exact if_pos hcomponent
  · rw [if_neg hcomponent]
    exact if_neg hcomponent

/-! ### Words around code -/

lemma spells_led (h : isWord word) (hlead : lead = word ++ " ") :
    Spells (Heads (!isGapBlank ·)) lead [wordRow word] := by
  rw [hlead]
  exact (spells_word h).append_cons spells_blank rfl rfl

lemma spells_between (h : isWord word) (hlead : lead = " " ++ (word ++ " ")) :
    Spells (Heads (!isGapBlank ·)) lead [wordRow word] := by
  rw [hlead]
  exact spells_blank.append (spells_led h rfl) fun rest _ =>
    not_isGapBlank_of_edge ((leads_word h isEdge_of_start).append " " rest)

/-- Code with something in front of it and a blank behind it. -/
lemma spells_introduced {us : List Row} (hlead : Spells (Heads (!isGapBlank ·)) lead us)
    (hcode : Inline code rows) : Spells (Heads isEdge) (lead ++ code ++ " ") (us ++ rows) := by
  have hwords : Spells Breaks (lead ++ code) (us ++ rows) :=
    hlead.append hcode.spells fun rest _ =>
      (hcode.heads rest).mono fun _ => Token.not_isGapBlank_of_first
  have hfull := hwords.append spells_blank fun _ _ => Token.breaks_cons _ rfl
  rw [append_nil] at hfull
  exact hfull.weaken fun _ => not_isGapBlank_of_edge

lemma laid_if (hcode : Inline code rows) :
    Laid ("if " ++ code ++ " ") ([wordRow "if"] ++ rows) := by
  have hif : Spells (Heads (!isGapBlank ·)) "if " [wordRow "if"] := spells_led (by decide) rfl
  exact (((leads_cons (s := "if ") rfl (by decide)).append _).append _).laid
    (spells_introduced hif hcode)

lemma laid_for (name : Name) (hcode : Inline code rows) :
    Laid ("for " ++ name.text ++ " in " ++ code ++ " ")
      ([wordRow "for", wordRow name.text, wordRow "in"] ++ rows) := by
  have hfor : Spells (Heads (!isGapBlank ·)) "for " [wordRow "for"] := spells_led (by decide) rfl
  have hin : Spells (Heads (!isGapBlank ·)) " in " [wordRow "in"] := spells_between (by decide) rfl
  have hname := hfor.append (spells_word name.isWord) fun rest _ =>
    not_isGapBlank_of_edge (leads_word name.isWord isEdge_of_start rest)
  have hlead := hname.append_cons hin rfl rfl
  exact ((((leads_cons (s := "for ") rfl (by decide)).append _).append _).append _ |>.append _).laid
    (spells_introduced hlead hcode)

/-- A block with an alternative behind it. -/
lemma laid_otherwise (h : Laid s rows) :
    Laid (braced s ++ " else ")
      ([markRow .leftBrace] ++ rows ++ [markRow .rightBrace] ++ [wordRow "else"]) := by
  have helse : Spells (Heads (!isGapBlank ·)) " else " [wordRow "else"] :=
    spells_between (by decide) rfl
  have hfull := (spells_braced_laid h).append helse fun _ _ => trivial
  exact ((leads_braced (by decide) s).append _).laid (hfull.weaken fun _ => not_isGapBlank_of_edge)

/-! ### Trees as they are read -/

mutual

lemma Tag.spec : ∀ t : Tag, ∃ rows, Laid t.text rows ∧ ElementRows rows t.node t.mismatches
  | .closed head => by
    obtain ⟨attrs, hattrs, hspells⟩ := head.spec
    have hend : Spells (Heads isEdge) "/>" ([markRow .slash] ++ [markRow .gt]) :=
      Spells.append (s := "/") (t := ">") spells_slash spells_gt fun _ _ => heads_cons _ rfl
    refine ⟨_, (head.leads.append "/>").laid (hspells.append hend fun _ _ => heads_cons _ rfl), ?_⟩
    rw [Tag.node, ← head.tagged_eq]
    exact elementRows_closed head.name.isTagName hattrs
  | .paired head inner closing => by
    obtain ⟨attrs, hattrs, hspells⟩ := head.spec
    obtain ⟨us, hlaid, hinner⟩ := inner.spec
    have hgt : Laid ">" [markRow .gt] := (leads_cons rfl (by decide)).laid spells_gt
    have hend := (hgt.append hlaid).append closing.laid_closing
    have hclose : Leads isClose (">" ++ inner.text ++ ("</" ++ closing.text ++ ">")) :=
      ((leads_cons (s := ">") rfl (by decide)).append _).append _
    refine ⟨_, (head.leads.append _).laid
      (hspells.append hend.spells fun rest _ => hclose rest), ?_⟩
    rw [Tag.node, ← head.tagged_eq]
    exact elementRows_paired head.name.isTagName hattrs hinner closing.kind

lemma Children.spec : ∀ cs : Children, ∃ rows, Laid cs.text rows ∧
    ChildrenRows rows cs.nodes cs.mismatches
  | .nil gap => by
    obtain ⟨rows, hgap, hlaid⟩ := gap.laid
    exact ⟨rows, hlaid, childrenRows_nil hgap⟩
  | .cons gap child more => by
    obtain ⟨rows, hgap, hlaid⟩ := gap.laid
    obtain ⟨us, hchild, hread⟩ := child.spec
    obtain ⟨vs, hmore, hreads⟩ := more.spec
    exact ⟨_, (hlaid.append hchild).append hmore, hreads.cons hgap hread⟩

lemma Child.spec : ∀ c : Child, ∃ rows, Laid c.text rows ∧ ChildRows rows c.node c.mismatches
  | .quoted value =>
    ⟨_, (leads_cons (Script.stringLiteral_toList value.value) (by decide)).laid
      (Token.spells_string value.valid).anywhere, childRows_text value.value⟩
  | .code e => by
    obtain ⟨rows, htext, hphrase⟩ := e.spec
    exact ⟨_, (leads_braced (by decide) e.text).laid
      (spells_braced_code htext).anywhere, childRows_code hphrase⟩
  | .tag t => by
    obtain ⟨rows, hlaid, hread⟩ := t.spec
    exact ⟨rows, hlaid, hread.child⟩
  | .branch b => by
    obtain ⟨rows, hlaid, hread⟩ := b.spec
    exact ⟨_, laid_braced hlaid, hread.child⟩
  | .each name e body => by
    obtain ⟨rows, htext, hphrase⟩ := e.spec
    obtain ⟨us, hlaid, hread⟩ := body.spec
    exact ⟨_, laid_braced ((laid_for name htext).append (laid_braced hlaid)),
      childRows_each name.kind hphrase hread.block⟩

lemma Branch.spec : ∀ b : Branch, ∃ rows, Laid b.text rows ∧ BranchRows rows b.node b.mismatches
  | .only condition body => by
    obtain ⟨rows, htext, hphrase⟩ := condition.spec
    obtain ⟨us, hlaid, hread⟩ := body.spec
    exact ⟨_, (laid_if htext).append (laid_braced hlaid), branchRows_only hphrase hread.block⟩
  | .orElse condition body alternate => by
    obtain ⟨rows, htext, hphrase⟩ := condition.spec
    obtain ⟨us, hlaid, hread⟩ := body.spec
    obtain ⟨vs, hlaid', hread'⟩ := alternate.spec
    refine ⟨_, ((laid_if htext).append (laid_otherwise hlaid)).append (laid_braced hlaid'), ?_⟩
    have hrows := branchRows_orElse hphrase hread.block hread'.block
    rw [Branch.node, Branch.mismatches]
    simpa only [append_assoc] using hrows
  | .orBranch condition body alternate => by
    obtain ⟨rows, htext, hphrase⟩ := condition.spec
    obtain ⟨us, hlaid, hread⟩ := body.spec
    obtain ⟨vs, hlaid', hread'⟩ := alternate.spec
    refine ⟨_, ((laid_if htext).append (laid_otherwise hlaid)).append hlaid', ?_⟩
    have hrows := branchRows_orBranch hphrase hread.block hread'
    rw [Branch.node, Branch.mismatches]
    simpa only [append_assoc] using hrows

lemma Body.spec : ∀ b : Body, ∃ rows, Laid b.text rows ∧ BodyRows rows b.nodes b.mismatches
  | .nil gap => by
    obtain ⟨rows, hgap, hlaid⟩ := gap.laid
    exact ⟨rows, hlaid, bodyRows_nil hgap⟩
  | .cons gap t more => by
    obtain ⟨rows, hgap, hlaid⟩ := gap.laid
    obtain ⟨us, htag, hread⟩ := t.spec
    obtain ⟨vs, hmore, hreads⟩ := more.spec
    exact ⟨_, (hlaid.append htag).append hmore, hreads.cons hgap hread⟩

end

/-- Line ends between tags and around them may be dropped before reading starts. -/
lemma ofTokens_element {n : Node} {faults : List (String × String)} (h : ElementRows rows n faults)
    {ts : List Token} (hts : ts.map Token.row = Token.pruneRows rows ++ [Token.endRow])
    (file : String) :
    (faults = [] → ∃ p m, Program.ofTokens ts file = .ok p ∧ p.body = [m] ∧ m.unplaced = n) ∧
      ∀ tag closing, faults.head? = some (tag, closing) →
        ∃ place, Program.ofTokens ts file = .error (.closingTag tag closing place) := by
  obtain ⟨k, c, d, hover, -, hk, hprogram⟩ := ofTokens_statement hts file
  have hstretch : Stretch rows c d := ⟨_, Token.thinned_pruneRows rows, hover⟩
  obtain ⟨hlt, helement, -⟩ := h.starts hstretch
  obtain ⟨hok, herror⟩ := hprogram (by rw [hlt]; rfl) (by rw [hlt]; exact nofun)
  have hread : Comes (rules (k + 1)).statement c d (·.unplaced = n) faults :=
    (h.reads (k := k) (by omega) hstretch).congr (statement_element hlt helement)
  cases faults with
  | nil =>
    obtain ⟨m, hm, hnode⟩ := hread
    obtain ⟨p, hp, hbody⟩ := hok m hm
    exact ⟨fun _ => ⟨p, m, hp, hbody, hnode⟩, nofun⟩
  | cons fault =>
    obtain ⟨place, e, hfault⟩ := hread
    refine ⟨nofun, fun tag closing hhead => ⟨place, ?_⟩⟩
    obtain rfl : fault = (tag, closing) := Option.some.inj hhead
    exact herror _ _ hfault

/-- A tree whose closing tags all fit is read back from its text, and is all that is read. If some
do not fit, then the first of them is reported. -/
theorem parse_markup (t : Tag) (file : String) :
    (t.mismatches = [] →
      ∃ p n, Program.parse t.text file = .ok p ∧ p.body = [n] ∧ n.unplaced = t.node) ∧
    ∀ tag closing, t.mismatches.head? = some (tag, closing) →
      ∃ f, Program.parse t.text file = .error f ∧
        f.message = s!"Expected closing tag </{tag}>, got </{closing}>" ∧
        ∃ place, f = .closingTag tag closing place := by
  obtain ⟨rows, hlaid, hread⟩ := t.spec
  obtain ⟨hscan, hrows⟩ := Token.scan_of_spells hlaid.spells Token.heads_nil
  obtain ⟨ts, hparse, hts⟩ := tokenize_of_scan hscan file
  rw [hrows] at hts
  obtain ⟨hok, herror⟩ := ofTokens_element hread hts file
  rw [hparse]
  refine ⟨hok, fun tag closing hhead => ?_⟩
  obtain ⟨place, hfault⟩ := herror tag closing hhead
  exact ⟨_, hfault, rfl, place, rfl⟩

/-- An item with an instance of a component in a conditional, closed as an item and as a list. -/
theorem parse_markup_item :
    let component : Tag := .closed ⟨⟨⟨"A", by decide⟩, by decide⟩,
      [⟨⟨true, ⟨[]⟩, by decide⟩, .words ⟨"b", by decide⟩ [], some (.quoted ⟨"c", by decide⟩)⟩],
      by decide, ⟨[0]⟩⟩
    let item (closing : Name) : Tag := .paired ⟨⟨⟨"li", by decide⟩, by decide⟩,
      [⟨⟨false, ⟨[1]⟩, by decide⟩, .words ⟨"data", by decide⟩ [⟨"if", by decide⟩], none⟩,
        ⟨⟨true, ⟨[]⟩, by decide⟩, .event ⟨"click", by decide⟩,
          some (.code ⟨.identifier none "f", by decide, rfl⟩)⟩],
      by decide, ⟨[]⟩⟩
      (.cons ⟨[0, 2]⟩ (.branch (.only ⟨.identifier none "x", by decide, rfl⟩
        (.cons ⟨[4]⟩ component (.nil ⟨[2]⟩)))) (.nil ⟨[0]⟩)) closing
    let text :=
      "<li\n data-if @click=\x7bf\x7d>\n\n  \x7bif x \x7b\n    <A b=\"c\"\n/>\n  \x7d\x7d\n</"
    (item ⟨"li", by decide⟩).text = text ++ "li>" ∧ (item ⟨"ul", by decide⟩).text = text ++ "ul>" ∧
      (∃ p n, Program.parse (text ++ "li>") "main" = .ok p ∧ p.body = [n] ∧
        n.unplaced = .element none "li"
          [⟨"data-if", none⟩, ⟨"@click", some (.identifier none "f")⟩]
          [.ifElse none (.identifier none "x")
            [.use none "A" [⟨"b", some (.string none "c")⟩] [] true] none] false) ∧
      ∃ f, Program.parse (text ++ "ul>") "main" = .error f ∧
        f.message = "Expected closing tag </li>, got </ul>" := by
  intro component item text
  have hitem : (item ⟨"li", by decide⟩).text = text ++ "li>" := rfl
  have hlist : (item ⟨"ul", by decide⟩).text = text ++ "ul>" := rfl
  have hread := (parse_markup (item ⟨"li", by decide⟩) "main").1 rfl
  obtain ⟨f, hf, hmessage, -⟩ := (parse_markup (item ⟨"ul", by decide⟩) "main").2 "li" "ul" rfl
  rw [hitem] at hread
  rw [hlist] at hf
  exact ⟨hitem, hlist, hread, f, hf, hmessage⟩

end UiScript.Markup
