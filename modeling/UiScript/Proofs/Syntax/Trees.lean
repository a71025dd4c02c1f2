import UiScript.Proofs.Token.Spelling
import UiScript.Syntax.Grammar

/-!
# The trees of programs

The type of nodes allows more trees than can be read. Those that can be read are described here by
the position of a node: what an expression, a statement and a child of markup consist of. Markup may
stand anywhere, conditionals and loops as statements and as children, and texts and interpolations
as children only.
-/

namespace UiScript.Syntax

open Token (isWord isIdentifierStart isIdentifierChar)

/-! ### Names and operators -/

/-- The operators between two operands. -/
def binaryOperators : List String :=
  [Symbol.or, .and, .eq, .neq, .lt, .gt, .lte, .gte, .plus, .minus, .star, .slash, .percent].map
    Symbol.spelling

def unaryOperators : List String := [Symbol.not, .minus].map Symbol.spelling

/-- Words joined by hyphens. -/
def isHyphenated (name : List Char) : Bool :=
  match name with
  | c :: cs => isIdentifierStart c && cs.all fun c => isIdentifierChar c || c == '-'
  | [] => false

lemma char_of_isHyphenated {name : List Char} (h : isHyphenated name) :
    ∀ c ∈ name, isIdentifierChar c ∨ c = '-' := by
  cases name with
  | nil => exact nofun
  | cons =>
    obtain ⟨hd, hcs⟩ := Bool.and_eq_true_iff.mp h
    refine List.forall_mem_cons.mpr ⟨.inl (Token.isIdentifierChar_of_start hd), fun c hc => ?_⟩
    exact (Bool.or_eq_true_iff.mp (List.all_eq_true.mp hcs c hc)).imp_right eq_of_beq

lemma notMem_of_isHyphenated {c : Char} (hc : !isIdentifierChar c && c != '-') {cs : List Char}
    (h : isHyphenated cs) : c ∉ cs := by
  intro hmem
  rcases char_of_isHyphenated h c hmem with hword | rfl
  · simp [hword] at hc
  · exact absurd hc (by decide)

def isAttributeName (name : String) : Bool :=
  match name.toList with
  | '@' :: cs => isHyphenated cs
  | cs => isHyphenated cs

lemma notMem_of_isAttributeName {c : Char} (hc : !isIdentifierChar c && c != '-') (hat : c ≠ '@')
    {name : String} (h : isAttributeName name) : c ∉ name.toList := by
  unfold isAttributeName at h
  split at h
  next cs hcs =>
    rw [hcs, List.mem_cons, not_or]
    exact ⟨hat, notMem_of_isHyphenated hc h⟩
  next => exact notMem_of_isHyphenated hc h

/-- The first character of a name is in some range of letters. -/
def startsWithin (low high : Char) (name : String) : Bool :=
  name.toList.head?.any fun c => low ≤ c && c ≤ high

/-! ### Templates -/

def Part.isText : Part Node → Bool
  | .text _ => true
  | .hole _ => false

/-- Between two texts of a template there is an expression. -/
def Alternate (parts : List (Part Node)) : Prop :=
  parts.IsChain fun a b => ¬ (Part.isText a ∧ Part.isText b)

def Part.Follows : Part Node → Segment → Prop
  | .text s, .text literal => s = String.ofList literal
  | .hole _, .hole _ => True
  | _, _ => False

/-! ### What comes of tokens -/

lemma exists_of_mem_left {α β : Type} {R : α → β → Prop} {as : List α} {bs : List β}
    (h : List.Forall₂ R as bs) {a : α} (ha : a ∈ as) : ∃ b ∈ bs, R a b := by
  induction h with
  | nil => cases ha
  | cons hb _ ih =>
    rcases List.mem_cons.mp ha with rfl | ha
    · exact ⟨_, List.mem_cons_self, hb⟩
    · obtain ⟨b, hmem, hb⟩ := ih ha
      exact ⟨b, List.mem_cons_of_mem _ hmem, hb⟩

section Sources

variable (L : Token → Prop)

def Valued (value : String) : Prop := ∃ t, L t ∧ t.value = value

def Word (name : String) : Prop := isWord name ∧ Valued L name

def Label (name : String) : Prop :=
  isAttributeName name ∧ ∃ words : List String, (∀ word ∈ words, Valued L word) ∧
    (name = String.intercalate "-" words ∨ name = "@" ++ String.intercalate "-" words)

/-- A text from the values of tokens. -/
def Wording (value : String) : Prop :=
  ∃ words : List String, (∀ word ∈ words, Valued L word) ∧ value = String.intercalate " " words

def Quoted (p : Option Place) (value : String) : Prop :=
  ∃ t, L t ∧ t.kind = .string ∧ some t.place = p ∧ t.value = value

def Filled (p : Option Place) (parts : List (Part Node)) : Prop :=
  ∃ t, L t ∧ t.template ∧ some t.place = p ∧ hasHole t.value.toList ∧
    (segments [] t.value.toList).2 = false ∧
    List.Forall₂ Part.Follows parts (segments [] t.value.toList).1

end Sources

/-! ### Nodes by their position -/

/-- Where a node stands. -/
inductive Position where
  | expression
  | statement
  | child
  deriving DecidableEq

inductive Drawn (L : Token → Prop) : Position → Node → Prop
  -- expressions
  | identifier {p : Option Place} {name : String} (hname : Word L name) :
      Drawn L .expression (.identifier p name)
  | number {p : Option Place} {value : Number} :
      Drawn L .expression (.number p (.number value))
  | string {p : Option Place} {value : String} (hvalue : Quoted L p value) :
      Drawn L .expression (.string p value)
  | boolean {p : Option Place} {value : Bool} : Drawn L .expression (.boolean p value)
  | null {p : Option Place} : Drawn L .expression (.null p)
  | template {p : Option Place} {parts : List (Part Node)} (hhole : ∃ e, .hole e ∈ parts)
      (halternate : Alternate parts)
      (hparts : ∀ e, .hole e ∈ parts → Drawn L .expression e) (hfilled : Filled L p parts) :
      Drawn L .expression (.template p parts)
  | binary {p : Option Place} {op : String} {left right : Node} (hop : op ∈ binaryOperators)
      (hleft : Drawn L .expression left) (hright : Drawn L .expression right) :
      Drawn L .expression (.binary p op left right)
  | unary {p : Option Place} {op : String} {operand : Node} (hop : op ∈ unaryOperators)
      (hoperand : Drawn L .expression operand) :
      Drawn L .expression (.unary p op operand)
  | call {p : Option Place} {callee : Node} {arguments : List Node}
      (hcallee : Drawn L .expression callee)
      (harguments : ∀ a ∈ arguments, Drawn L .expression a) :
      Drawn L .expression (.call p callee arguments)
  | member {p : Option Place} {obj : Node} {name : String}
      (hobj : Drawn L .expression obj) (hname : Word L name) :
      Drawn L .expression (.member p obj name false none)
  | index {p : Option Place} {obj i : Node}
      (hobj : Drawn L .expression obj) (hindex : Drawn L .expression i) :
      Drawn L .expression (.member p obj "" true (some i))
  | assign {p : Option Place} {target value : Node}
      (htarget : Drawn L .expression target) (hvalue : Drawn L .expression value) :
      Drawn L .expression (.assign p target value)
  | arrow {p : Option Place} {params : List (Param Node)} {body : List Node}
      (hnames : ∀ q ∈ params, Word L q.name)
      (hdefaults : ∀ q ∈ params, ∀ v ∈ q.default, Drawn L .expression v)
      (hbody : ∀ n ∈ body, Drawn L .statement n) :
      Drawn L .expression (.arrow p params (.block body))
  | arrowValue {p : Option Place} {params : List (Param Node)} {body : Node}
      (hnames : ∀ q ∈ params, Word L q.name)
      (hdefaults : ∀ q ∈ params, ∀ v ∈ q.default, Drawn L .expression v)
      (hbody : Drawn L .expression body) :
      Drawn L .expression (.arrow p params (.value body))
  | array {p : Option Place} {elements : List Node}
      (helements : ∀ e ∈ elements, Drawn L .expression e) :
      Drawn L .expression (.array p elements)
  | object {p : Option Place} {properties : List (Entry Node)}
      (hsome : ∀ e ∈ properties, e.value.isSome)
      (hvalues : ∀ e ∈ properties, ∀ v ∈ e.value, Drawn L .expression v)
      (hkeys : ∀ e ∈ properties, Valued L e.name) : Drawn L .expression (.object p properties)
  | conditional {p : Option Place} {condition consequent alternate : Node}
      (hcondition : Drawn L .expression condition)
      (hconsequent : Drawn L .expression consequent)
      (halternate : Drawn L .expression alternate) :
      Drawn L .expression (.conditional p condition consequent alternate)
  | pipe {p : Option Place} {left right : Node}
      (hleft : Drawn L .expression left) (hright : Drawn L .expression right) :
      Drawn L .expression (.pipe p left right)
  -- markup: capitals are for components, which have no bare attributes
  | element {pos : Position} {p : Option Place} {tag : String} {attributes : List (Entry Node)}
      {children : List Node} {selfClosing : Bool} (htag : Word L tag)
      (hcase : startsWithin 'a' 'z' tag) (hnames : ∀ e ∈ attributes, Label L e.name)
      (hvalues : ∀ e ∈ attributes, ∀ v ∈ e.value, Drawn L .expression v)
      (hchildren : ∀ c ∈ children, Drawn L .child c)
      (hclosing : selfClosing → children = []) :
      Drawn L pos (.element p tag attributes children selfClosing)
  | use {pos : Position} {p : Option Place} {name : String} {props : List (Entry Node)}
      {children : List Node} {selfClosing : Bool} (hname : Word L name)
      (hcase : startsWithin 'A' 'Z' name) (hnames : ∀ e ∈ props, Label L e.name)
      (hsome : ∀ e ∈ props, e.value.isSome)
      (hvalues : ∀ e ∈ props, ∀ v ∈ e.value, Drawn L .expression v)
      (hchildren : ∀ c ∈ children, Drawn L .child c)
      (hclosing : selfClosing → children = []) :
      Drawn L pos (.use p name props children selfClosing)
  | text {p : Option Place} {value : String} (hvalue : Wording L value) :
      Drawn L .child (.text p value)
  | interpolation {p : Option Place} {e : Node} (he : Drawn L .expression e) :
      Drawn L .child (.interpolation p e)
  -- statements
  | ifElse {pos : Position} {p : Option Place} {condition : Node} {consequent : List Node}
      {alternate : Option (List Node)} (hpos : pos ≠ .expression)
      (hcondition : Drawn L .expression condition)
      (hconsequent : ∀ n ∈ consequent, Drawn L .statement n)
      (halternate : ∀ ns ∈ alternate, ∀ n ∈ ns, Drawn L .statement n) :
      Drawn L pos (.ifElse p condition consequent alternate)
  | forEach {pos : Position} {p : Option Place} {name : String} {iterable : Node}
      {body : List Node} (hpos : pos ≠ .expression) (hname : Word L name)
      (hiterable : Drawn L .expression iterable)
      (hbody : ∀ n ∈ body, Drawn L .statement n) :
      Drawn L pos (.forEach p name iterable body)
  | returning {p : Option Place} {value : Option Node}
      (hvalue : ∀ v ∈ value, Drawn L .expression v) :
      Drawn L .statement (.returning p value)
  | expression {p : Option Place} {e : Node} (he : Drawn L .expression e) :
      Drawn L .statement (.expression p e)
  | block {p : Option Place} {body : List Node} (hbody : ∀ n ∈ body, Drawn L .statement n) :
      Drawn L .statement (.block p body)
  -- declarations
  | component {p : Option Place} {name : String} {params : List (Param Node)} {body : List Node}
      (hname : Word L name) (hnames : ∀ q ∈ params, Word L q.name)
      (hdefaults : ∀ q ∈ params, ∀ v ∈ q.default, Drawn L .expression v)
      (hbody : ∀ n ∈ body, Drawn L .statement n) :
      Drawn L .statement (.component p name params body)
  | function {p : Option Place} {name : String} {params : List (Param Node)}
      {result : Option TypeExpr} {body : List Node} (hname : Word L name)
      (hnames : ∀ q ∈ params, Word L q.name)
      (hdefaults : ∀ q ∈ params, ∀ v ∈ q.default, Drawn L .expression v)
      (hbody : ∀ n ∈ body, Drawn L .statement n) :
      Drawn L .statement (.function p name params result body)
  | binding {p : Option Place} {name : String} {mutable : Bool} {written : Option TypeExpr}
      {value : Node} (hname : Word L name) (hvalue : Drawn L .expression value) :
      Drawn L .statement (.binding p name mutable written value)
  | state {p : Option Place} {name : String} {written : Option TypeExpr} {value : Node}
      (hname : Word L name) (hvalue : Drawn L .expression value) :
      Drawn L .statement (.state p name written value)
  | effect {p : Option Place} {dependencies : List String} {body : List Node}
      (hbody : ∀ n ∈ body, Drawn L .statement n) :
      Drawn L .statement (.effect p dependencies body)
  | style {p : Option Place} {name : Option String} {properties : List (Entry Node)}
      (hsome : ∀ e ∈ properties, e.value.isSome)
      (hvalues : ∀ e ∈ properties, ∀ v ∈ e.value, Drawn L .expression v)
      (hname : ∀ word ∈ name, Word L word) : Drawn L .statement (.style p name properties)
  | imports {p : Option Place} {specifiers : List String} {source : String}
      (hspecifiers : ∀ s ∈ specifiers, Word L s) :
      Drawn L .statement (.imports p specifiers source)
  | exports {p : Option Place} {specifiers : List String} {declaration : Option Node}
      (hspecifiers : ∀ s ∈ specifiers, Word L s)
      (hdeclaration : ∀ d ∈ declaration, Drawn L .statement d) :
      Drawn L .statement (.exports p specifiers declaration)

abbrev Grammatical : Position → Node → Prop := Drawn fun _ => True

def ParamFits (L : Token → Prop) (q : Param Node) : Prop :=
  Word L q.name ∧ ∀ v ∈ q.default, Drawn L .expression v

def PropertyFits (L : Token → Prop) (e : Entry Node) : Prop :=
  (e.value.isSome ∧ ∀ v ∈ e.value, Drawn L .expression v) ∧ Valued L e.name

/-- An attribute, perhaps without a value. -/
def AttributeFits (L : Token → Prop) (e : Entry Node) : Prop :=
  Label L e.name ∧ ∀ v ∈ e.value, Drawn L .expression v

end UiScript.Syntax
