import UiScript.Proofs.Places
import UiScript.Syntax.Dump

/-!
# Reading a dump back

The dump of a tree leaves out its places and file names, and nothing else: here is a reader that
recovers the rest. The reader first makes a piece of every part of the data, from the inside out. A
dictionary with a form is a node; the others are told apart by their keys. It looks at the members
of a dictionary by their keys only, so their order does not matter to it.
-/

namespace UiScript

/-- A program without places and file names. -/
def Program.stripped (p : Program) : Program where
  body := Node.unplacedList p.body
  file := ""

/-! ### Pieces -/

/-- What a part of a dump stands for. -/
inductive Piece where
  | nothing
  | truth (b : Bool)
  | number (n : Number)
  | text (s : String)
  | items (pieces : List Piece)
  | node (n : Node)
  | written (t : TypeExpr)
  | param (p : Param Node)
  /-- A named value, and the key under which the name stands. -/
  | entry (key : String) (e : Entry Node)
  /-- No part of any tree. -/
  | junk

variable {α : Type}

namespace Piece

def text? : Piece → Option String
  | .text s => some s
  | _ => none

def truth? : Piece → Option Bool
  | .truth b => some b
  | _ => none

def numeric? : Piece → Option Numeric
  | .number n => some (.number n)
  | .truth b => some (.truth b)
  | _ => none

def node? : Piece → Option Node
  | .node n => some n
  | _ => none

def written? : Piece → Option TypeExpr
  | .written t => some t
  | _ => none

def param? : Piece → Option (Param Node)
  | .param p => some p
  | _ => none

/-- A named value whose name stands under the given key. -/
def property? (key : String) : Piece → Option (Entry Node)
  | .entry k e => if k = key then some e else none
  | _ => none

def part? : Piece → Option (Part Node)
  | .text s => some (.text s)
  | .node n => some (.hole n)
  | _ => none

def optional? (read : Piece → Option α) : Piece → Option (Option α)
  | .nothing => some none
  | p => (read p).map some

def readAll? (read : Piece → Option α) : List Piece → Option (List α)
  | [] => some []
  | p :: ps => List.cons <$> read p <*> readAll? read ps

def items? (read : Piece → Option α) : Piece → Option (List α)
  | .items ps => readAll? read ps
  | _ => none

def body? : Piece → Option (Body Node)
  | .items ps => .block <$> readAll? node? ps
  | .node n => some (.value n)
  | _ => none

end Piece

/-! ### Dictionaries -/

abbrev Members := String → Option Piece

namespace Members

open Piece

def read (m : Members) (key : String) (f : Piece → Option α) : Option α :=
  (m key).bind f

def toNode (m : Members) : String → Option Node
  | "Node" => some (.bare none .node)
  | "Expr" => some (.bare none .expression)
  | "Statement" => some (.bare none .statement)
  | "Declaration" => some (.bare none .declaration)
  -- expressions
  | "Identifier" => .identifier none <$> m.read "name" text?
  | "NumberLiteral" => .number none <$> m.read "value" numeric?
  | "StringLiteral" => .string none <$> m.read "value" text?
  | "BooleanLiteral" => .boolean none <$> m.read "value" truth?
  | "NullLiteral" => some (.null none)
  | "TemplateLiteral" => .template none <$> m.read "parts" (items? part?)
  | "BinaryExpr" =>
    .binary none <$> m.read "operator" text? <*> m.read "left" node? <*> m.read "right" node?
  | "UnaryExpr" => .unary none <$> m.read "operator" text? <*> m.read "operand" node?
  | "CallExpr" => .call none <$> m.read "callee" node? <*> m.read "arguments" (items? node?)
  | "MemberExpr" =>
    .member none <$> m.read "object" node? <*> m.read "property" text? <*>
      m.read "computed" truth? <*> m.read "index" (optional? node?)
  | "AssignExpr" => .assign none <$> m.read "target" node? <*> m.read "value" node?
  | "ArrowFunction" => .arrow none <$> m.read "params" (items? param?) <*> m.read "body" body?
  | "ArrayLiteral" => .array none <$> m.read "elements" (items? node?)
  | "ObjectLiteral" => .object none <$> m.read "properties" (items? (property? "key"))
  | "ConditionalExpr" =>
    .conditional none <$> m.read "condition" node? <*> m.read "consequent" node? <*>
      m.read "alternate" node?
  | "PipeExpr" => .pipe none <$> m.read "left" node? <*> m.read "right" node?
  -- markup
  | "UIElement" =>
    .element none <$> m.read "tag" text? <*> m.read "attributes" (items? (property? "name")) <*>
      m.read "children" (items? node?) <*> m.read "self_closing" truth?
  | "UIText" => .text none <$> m.read "value" text?
  | "UIExpression" => .interpolation none <$> m.read "expression" node?
  | "ComponentInstance" =>
    .use none <$> m.read "name" text? <*> m.read "props" (items? (property? "name")) <*>
      m.read "children" (items? node?) <*> m.read "self_closing" truth?
  -- statements
  | "ReturnStatement" => .returning none <$> m.read "value" (optional? node?)
  | "IfStatement" =>
    .ifElse none <$> m.read "condition" node? <*> m.read "consequent" (items? node?) <*>
      m.read "alternate" (optional? (items? node?))
  | "ForStatement" =>
    .forEach none <$> m.read "variable" text? <*> m.read "iterable" node? <*>
      m.read "body" (items? node?)
  | "ExpressionStatement" => .expression none <$> m.read "expression" node?
  | "BlockStatement" => .block none <$> m.read "body" (items? node?)
  -- declarations
  | "ComponentDecl" =>
    .component none <$> m.read "name" text? <*> m.read "params" (items? param?) <*>
      m.read "body" (items? node?)
  | "FunctionDecl" =>
    .function none <$> m.read "name" text? <*> m.read "params" (items? param?) <*>
      m.read "return_type" (optional? written?) <*> m.read "body" (items? node?)
  | "VariableDecl" =>
    .binding none <$> m.read "name" text? <*> m.read "mutable" truth? <*>
      m.read "type_annotation" (optional? written?) <*> m.read "value" node?
  | "StateDecl" =>
    .state none <$> m.read "name" text? <*> m.read "type_annotation" (optional? written?) <*>
      m.read "value" node?
  | "EffectDecl" =>
    .effect none <$> m.read "dependencies" (items? text?) <*> m.read "body" (items? node?)
  | "StyleDecl" =>
    .style none <$> m.read "name" (optional? text?) <*>
      m.read "properties" (items? (property? "key"))
  | "ImportDecl" =>
    .imports none <$> m.read "specifiers" (items? text?) <*> m.read "source" text?
  | "ExportDecl" =>
    .exports none <$> m.read "specifiers" (items? text?) <*>
      m.read "declaration" (optional? node?)
  | "Program" => (.program none · "") <$> m.read "body" (items? node?)
  | _ => none

/-- A written type has arguments, a parameter has a default value, and a named value has neither. -/
def toRecord (m : Members) : Option Piece :=
  if (m "generic_args").isSome then
    (.written <| .mk · ·) <$> m.read "name" text? <*> m.read "generic_args" (items? written?)
  else if (m "default_value").isSome then
    (.param ⟨·, ·, ·⟩) <$> m.read "name" text? <*>
      m.read "type_annotation" (optional? written?) <*> m.read "default_value" (optional? node?)
  else
    let key := if (m "key").isSome then "key" else "name"
    (.entry key ⟨·, ·⟩) <$> m.read key text? <*> m.read "value" (optional? node?)

/-- The piece that a dictionary stands for. -/
def toPiece (m : Members) : Piece :=
  match m "type" with
  | some (.text form) => ((m.toNode form).map .node).getD .junk
  | some _ => .junk
  | none => m.toRecord.getD .junk

end Members

/-! ### The reader -/

mutual

def Piece.ofValue : Value → Piece
  | .null => .nothing
  | .bool b => .truth b
  | .int n => .number (.int n)
  | .float x => .number (.float x)
  | .nan _ => .number (.float .nan)
  | .str s => .text s
  | .list vs => .items (Piece.ofItems vs)
  | .dict entries => Members.toPiece (Dict.get? (Piece.ofEntries entries))

def Piece.ofItems : List Value → List Piece
  | [] => []
  | v :: vs => Piece.ofValue v :: Piece.ofItems vs

def Piece.ofEntries : List (String × Value) → Dict Piece
  | [] => []
  | (key, v) :: rest => (key, Piece.ofValue v) :: Piece.ofEntries rest

end

def Program.ofValue? (v : Value) : Option Program :=
  match Piece.ofValue v with
  | .node (.program place body file) => some { body, file, place }
  | _ => none

/-! ### Every dump is read back -/

section Fields

variable {β γ δ ε : Type} {a : α} {b : β} {c : γ} {d : δ} {x : Option α} {y : Option β}
  {z : Option γ} {w : Option δ} (hx : x = some a) (hy : y = some b) (hz : z = some c)
  (hw : w = some d)
include hx

lemma read_one (f : α → ε) : f <$> x = some (f a) := by rw [hx]; rfl

include hy

lemma read_two (f : α → β → ε) : f <$> x <*> y = some (f a b) := by rw [hx, hy]; rfl

include hz

lemma read_three (f : α → β → γ → ε) : f <$> x <*> y <*> z = some (f a b c) := by
  rw [hx, hy, hz]; rfl

include hw

lemma read_four (f : α → β → γ → δ → ε) : f <$> x <*> y <*> z <*> w = some (f a b c d) := by
  rw [hx, hy, hz, hw]; rfl

end Fields

namespace Members

lemma toPiece_of_record {m : Members} {p : Piece} (hform : m "type" = none)
    (h : m.toRecord = some p) : m.toPiece = p := by
  simp only [toPiece, hform, h, Option.getD_some]

end Members

namespace Piece

open Members

lemma ofValue_form {form : String} {fields : List (String × Value)} {m n : Node}
    (h : toNode (Dict.get? (ofEntries (("type", .str form) :: fields))) form = some m)
    (hn : m = n := by exact rfl) : ofValue (.dict (("type", .str form) :: fields)) = .node n := by
  have hform : Dict.get? (ofEntries (("type", .str form) :: fields)) "type" = some (.text form) :=
    rfl
  simp only [ofValue, toPiece, hform, h, hn, Option.map_some, Option.getD_some]

lemma readAll?_texts (names : List String) :
    readAll? text? (ofItems (names.map .str)) = some names := by
  induction names with
  | nil => rfl
  | cons name names ih => exact read_two rfl ih _

lemma numeric?_toValue (x : Numeric) : numeric? (ofValue (x.toValue .shared)) = some x := by
  cases x with
  | truth => rfl
  | number n =>
    cases n with
    | int => rfl
    | float x => cases x <;> rfl

mutual

lemma ofValue_written : ∀ t : TypeExpr, ofValue t.toValue = .written t
  | .mk name arguments => by
    simp only [TypeExpr.toValue, ofValue, ofEntries]
    exact toPiece_of_record rfl (read_two rfl (readAll?_written arguments) _)

lemma readAll?_written : ∀ ts : List TypeExpr,
    readAll? written? (ofItems (TypeExpr.listToValues ts)) = some ts
  | [] => rfl
  | t :: ts => by
    simp only [TypeExpr.listToValues, ofItems, ofValue_written t]
    exact read_two rfl (readAll?_written ts) _

end

lemma optional?_written (t : Option TypeExpr) :
    optional? written? (ofValue (TypeExpr.optionToValue t)) = some t := by
  cases t with
  | none => rfl
  | some t => exact congrArg (optional? written?) (ofValue_written t)

lemma optional?_text (s : Option String) :
    optional? text? (ofValue ((s.map Value.str).getD .null)) = some s := by
  cases s <;> rfl

mutual

/-- The dump of a node is read as the node without places and file names. -/
lemma ofValue_node : ∀ n : Node, ofValue n.toValue = .node n.unplaced
  | .bare _ cls => by cases cls <;> rfl
  | .identifier .. | .string .. | .boolean .. | .null .. | .text .. => rfl
  | .number _ value => by
    have hvalue := numeric?_toValue value
    exact ofValue_form (read_one hvalue _)
  | .template _ parts => by
    have hparts := readAll?_parts parts
    exact ofValue_form (read_one hparts _)
  | .binary _ _ left right => by
    have hleft := node?_toValue left
    have hright := node?_toValue right
    exact ofValue_form (read_three rfl hleft hright _)
  | .unary _ _ operand => by
    have hoperand := node?_toValue operand
    exact ofValue_form (read_two rfl hoperand _)
  | .call _ callee arguments => by
    have hcallee := node?_toValue callee
    have harguments := readAll?_nodes arguments
    exact ofValue_form (read_two hcallee harguments _)
  | .member _ obj _ _ index => by
    have hobj := node?_toValue obj
    have hindex := optional?_node index
    exact ofValue_form (read_four hobj rfl rfl hindex _)
  | .assign _ target value => by
    have htarget := node?_toValue target
    have hvalue := node?_toValue value
    exact ofValue_form (read_two htarget hvalue _)
  | .arrow _ params (.block body) => by
    have hparams := readAll?_params params
    have hbody := read_one (readAll?_nodes body) Body.block
    exact ofValue_form (read_two hparams hbody _)
  | .arrow _ params (.value body) => by
    have hparams := readAll?_params params
    have hbody := congrArg body? (ofValue_node body)
    exact ofValue_form (read_two hparams hbody _)
  | .array _ elements => by
    have helements := readAll?_nodes elements
    exact ofValue_form (read_one helements _)
  | .object _ properties => by
    have hproperties := readAll?_entries (.inl rfl) properties
    exact ofValue_form (read_one hproperties _)
  | .conditional _ condition consequent alternate => by
    have hcondition := node?_toValue condition
    have hconsequent := node?_toValue consequent
    have halternate := node?_toValue alternate
    exact ofValue_form (read_three hcondition hconsequent halternate _)
  | .pipe _ left right => by
    have hleft := node?_toValue left
    have hright := node?_toValue right
    exact ofValue_form (read_two hleft hright _)
  | .element _ _ attributes children _ => by
    have hattributes := readAll?_entries (.inr rfl) attributes
    have hchildren := readAll?_nodes children
    exact ofValue_form (read_four rfl hattributes hchildren rfl _)
  | .interpolation _ value => by
    have hvalue := node?_toValue value
    exact ofValue_form (read_one hvalue _)
  | .use _ _ props children _ => by
    have hprops := readAll?_entries (.inr rfl) props
    have hchildren := readAll?_nodes children
    exact ofValue_form (read_four rfl hprops hchildren rfl _)
  | .returning _ value => by
    have hvalue := optional?_node value
    exact ofValue_form (read_one hvalue _)
  | .ifElse _ condition consequent alternate => by
    have hcondition := node?_toValue condition
    have hconsequent := readAll?_nodes consequent
    have halternate := optional?_nodes alternate
    exact ofValue_form (read_three hcondition hconsequent halternate _)
  | .forEach _ _ iterable body => by
    have hiterable := node?_toValue iterable
    have hbody := readAll?_nodes body
    exact ofValue_form (read_three rfl hiterable hbody _)
  | .expression _ value => by
    have hvalue := node?_toValue value
    exact ofValue_form (read_one hvalue _)
  | .block _ body => by
    have hbody := readAll?_nodes body
    exact ofValue_form (read_one hbody _)
  | .component _ _ params body => by
    have hparams := readAll?_params params
    have hbody := readAll?_nodes body
    exact ofValue_form (read_three rfl hparams hbody _)
  | .function _ _ params result body => by
    have hparams := readAll?_params params
    have hresult := optional?_written result
    have hbody := readAll?_nodes body
    exact ofValue_form (read_four rfl hparams hresult hbody _)
  | .binding _ _ _ type value => by
    have htype := optional?_written type
    have hvalue := node?_toValue value
    exact ofValue_form (read_four rfl rfl htype hvalue _)
  | .state _ _ type value => by
    have htype := optional?_written type
    have hvalue := node?_toValue value
    exact ofValue_form (read_three rfl htype hvalue _)
  | .effect _ dependencies body => by
    have hdependencies := readAll?_texts dependencies
    have hbody := readAll?_nodes body
    exact ofValue_form (read_two hdependencies hbody _)
  | .style _ name properties => by
    have hname := optional?_text name
    have hproperties := readAll?_entries (.inl rfl) properties
    exact ofValue_form (read_two hname hproperties _)
  | .imports _ specifiers _ => by
    have hspecifiers := readAll?_texts specifiers
    exact ofValue_form (read_two hspecifiers rfl _)
  | .exports _ specifiers declaration => by
    have hspecifiers := readAll?_texts specifiers
    have hdeclaration := optional?_node declaration
    exact ofValue_form (read_two hspecifiers hdeclaration _)
  | .program _ body _ => by
    have hbody := readAll?_nodes body
    exact ofValue_form (read_one hbody _)

lemma node?_toValue (n : Node) : node? (ofValue n.toValue) = some n.unplaced :=
  congrArg node? (ofValue_node n)

lemma readAll?_nodes : ∀ ns : List Node,
    readAll? node? (ofItems (Node.listToValues ns)) = some (Node.unplacedList ns)
  | [] => rfl
  | n :: ns => by
    simp only [Node.listToValues, Node.unplacedList, ofItems, ofValue_node n]
    exact read_two rfl (readAll?_nodes ns) _

lemma optional?_node : ∀ n : Option Node,
    optional? node? (ofValue (Node.optionToValue n)) = some (Node.unplacedOption n)
  | none => rfl
  | some n => by
    simp only [Node.optionToValue, Node.unplacedOption, ofValue_node n]
    rfl

lemma optional?_nodes : ∀ ns : Option (List Node),
    optional? (items? node?) (ofValue (Node.optionListToValue ns)) =
      some (Node.unplacedOptionList ns)
  | none => rfl
  | some ns => read_one (readAll?_nodes ns) some

/-- Entries are read with the key under which their names were written. -/
lemma readAll?_entries {key : String} (hkey : key = "key" ∨ key = "name") :
    ∀ es : List (Entry Node), readAll? (property? key) (ofItems (Node.entriesToValues key es)) =
      some (Node.unplacedEntries es)
  | [] => rfl
  | ⟨name, value⟩ :: es => by
    have hvalue := optional?_node value
    have hrest := readAll?_entries hkey es
    simp only [Node.entriesToValues, Node.unplacedEntries, ofItems, ofValue, ofEntries]
    rcases hkey with rfl | rfl
    all_goals
      rw [toPiece_of_record rfl (read_two rfl hvalue _)]
      exact read_two rfl hrest _

lemma readAll?_params : ∀ ps : List (Param Node),
    readAll? param? (ofItems (Node.paramsToValues ps)) = some (Node.unplacedParams ps)
  | [] => rfl
  | ⟨name, type, value⟩ :: ps => by
    have hvalue := optional?_node value
    have hrest := readAll?_params ps
    simp only [Node.paramsToValues, Node.unplacedParams, ofItems, ofValue, ofEntries]
    rw [toPiece_of_record rfl (read_three rfl (optional?_written type) hvalue _)]
    exact read_two rfl hrest _

lemma readAll?_parts : ∀ ps : List (Part Node),
    readAll? part? (ofItems (Node.partsToValues ps)) = some (Node.unplacedParts ps)
  | [] => rfl
  | .text s :: ps => by
    simp only [Node.partsToValues, Node.unplacedParts, ofItems, ofValue]
    exact read_two rfl (readAll?_parts ps) _
  | .hole e :: ps => by
    simp only [Node.partsToValues, Node.unplacedParts, ofItems, ofValue_node e]
    exact read_two rfl (readAll?_parts ps) _

end

end Piece

/-! ### Equality of data -/

namespace Value

mutual

/-- Equality of data: an integer is no floating point number, and the members of a dictionary may
stand in any order. -/
def identical : Value → Value → Bool
  | .null, .null => true
  | .bool a, .bool b => a == b
  | .int m, .int n => m == n
  | .float x, .float y => x == y
  | .nan _, .nan _ => true
  | .str s, .str t => s == t
  | .list vs, .list ws => identicalItems vs ws
  | .dict d, .dict e => identicalIn e d && e.all fun entry => (Dict.get? d entry.1).isSome
  | _, _ => false

def identicalItems : List Value → List Value → Bool
  | [], [] => true
  | v :: vs, w :: ws => identical v w && identicalItems vs ws
  | _, _ => false

def identicalIn (e : Dict Value) : List (String × Value) → Bool
  | [] => true
  | (key, v) :: rest =>
    (match Dict.get? e key with
      | some w => identical v w
      | none => false) && identicalIn e rest

end

end Value

namespace Piece

open Value (identical identicalItems identicalIn)

lemma get?_ofEntries (key : String) (d : Dict Value) :
    Dict.get? (ofEntries d) key = (Dict.get? d key).map ofValue := by
  induction d with
  | nil => rfl
  | cons entry d ih =>
    rw [ofEntries, Dict.get?_cons, Dict.get?_cons, ih]
    split_ifs <;> rfl

mutual

/-- Equal data are read as the same piece. -/
lemma ofValue_congr : ∀ {v w : Value}, identical v w → ofValue v = ofValue w
  | .null, .null, _ => rfl
  | .bool a, .bool b, h => by rw [eq_of_beq h]
  | .int m, .int n, h => by rw [eq_of_beq h]
  | .float x, .float y, h => by rw [eq_of_beq h]
  | .nan _, .nan _, _ => by simp only [ofValue]
  | .str s, .str t, h => by rw [eq_of_beq h]
  | .list vs, .list ws, h => by simp only [ofValue, ofItems_congr h]
  | .dict d, .dict e, h => by
    rw [identical, Bool.and_eq_true] at h
    obtain ⟨hin, hkeys⟩ := h
    have hmembers : Dict.get? (ofEntries d) = Dict.get? (ofEntries e) := by
      funext key
      cases hd : Dict.get? (ofEntries d) key with
      | some => exact (get?_congr hin hd).symm
      | none =>
        -- every key of the second dictionary is one of the first
        cases he : Dict.get? e key with
        | none => rw [get?_ofEntries, he, Option.map_none]
        | some w =>
          obtain ⟨before, after, rfl, -⟩ := List.lookup_eq_some_iff.mp he
          have hkey := List.all_eq_true.mp hkeys (key, w) (by simp)
          rw [get?_ofEntries, Option.map_eq_none_iff] at hd
          rw [hd] at hkey
          cases hkey
    simp only [ofValue, hmembers]

lemma ofItems_congr : ∀ {vs ws : List Value}, identicalItems vs ws → ofItems vs = ofItems ws
  | [], [], _ => rfl
  | v :: vs, w :: ws, h => by
    rw [identicalItems, Bool.and_eq_true] at h
    rw [ofItems, ofItems, ofValue_congr h.1, ofItems_congr h.2]

lemma get?_congr : ∀ {d e : Dict Value}, identicalIn e d → ∀ {key : String} {p : Piece},
    Dict.get? (ofEntries d) key = some p → Dict.get? (ofEntries e) key = some p
  | (k, v) :: d, e, h, key, p, hp => by
    rw [identicalIn, Bool.and_eq_true] at h
    rw [ofEntries, Dict.get?_cons] at hp
    split_ifs at hp with hk
    · have hvalue := h.1
      split at hvalue
      next w hw =>
        cases hp
        rw [get?_ofEntries, hk, hw, Option.map_some, ofValue_congr hvalue]
      next => cases hvalue
    · exact get?_congr h.2 hp

end

end Piece

namespace Program

lemma ofValue?_toValue (p : Program) : ofValue? p.toValue = some p.stripped := by
  have hread := Piece.ofValue_node (.program p.place p.body p.file)
  rw [Node.toValue, Node.unplaced] at hread
  rw [ofValue?, toValue, hread]
  rfl

/-- The dump of a program tells the program, down to each optional part: there is a reader that
recovers everything but places and file names. So programs with equal dumps are the same tree. -/
theorem dump_lossless (p q : Program) :
    ofValue? p.toValue = some p.stripped ∧
      (p.toValue.identical q.toValue → p.stripped = q.stripped) := by
  refine ⟨ofValue?_toValue p, fun h => ?_⟩
  have hread : ofValue? p.toValue = ofValue? q.toValue := by
    rw [ofValue?, ofValue?, Piece.ofValue_congr h]
  rw [ofValue?_toValue, ofValue?_toValue] at hread
  exact Option.some.inj hread

/-- The same tree, read at different places of different files. -/
theorem dump_lossless_elsewhere :
    let tree (place : Option Place) : List Node :=
      [.function place "f" [⟨"a", some (.mk "Int" []), some (.null place)⟩] none
        [.expression place (.arrow place [] (.value (.template place
          [.text "b", .hole (.identifier place "a")])))]]
    let p : Program :=
      { body := tree (some { file := "p.lum", line := 1, column := 1 }), file := "p" }
    let q : Program := { body := tree none, file := "q" }
    p.toValue.identical q.toValue ∧ p.stripped = q.stripped := by
  intro tree p q
  have h : p.toValue.identical q.toValue := by decide
  exact ⟨h, (dump_lossless p q).2 h⟩

end Program

end UiScript
