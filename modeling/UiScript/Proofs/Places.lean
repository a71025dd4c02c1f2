import Mathlib.Tactic.Common
import UiScript.Diagnostic
import UiScript.Syntax.Basic
import UiScript.Token.Basic

/-!
# Forgetting places

Tokens, nodes and diagnostics carry the place where they were read. What they say apart from that is
the row of a token, and the node or the diagnostic without places. Two trees are equal as trees if
they are equal without places.
-/

namespace UiScript

/-! ### Tokens -/

/-- What a token says, wherever it stands. -/
structure Token.Row where
  kind : Token.Kind
  value : String
  template : Bool
  deriving DecidableEq

def Token.row (t : Token) : Token.Row := ⟨t.kind, t.value, t.template⟩

@[simp] lemma Token.row_eq_iff {t u : Token} :
    t.row = u.row ↔ t.kind = u.kind ∧ t.value = u.value ∧ t.template = u.template := by
  simp [Token.row]

/-! ### Diagnostics -/

def Diagnostic.unplaced (d : Diagnostic) : Diagnostic := { d with place := none }

/-! ### Nodes -/

namespace Node

mutual

/-- A tree without places. The file of a program inside it is a place, too. -/
def unplaced : Node → Node
  | .bare _ cls => .bare none cls
  | .identifier _ name => .identifier none name
  | .number _ value => .number none value
  | .string _ value => .string none value
  | .boolean _ value => .boolean none value
  | .null _ => .null none
  | .template _ parts => .template none (unplacedParts parts)
  | .binary _ op left right => .binary none op left.unplaced right.unplaced
  | .unary _ op operand => .unary none op operand.unplaced
  | .call _ callee arguments => .call none callee.unplaced (unplacedList arguments)
  | .member _ obj property computed index =>
    .member none obj.unplaced property computed (unplacedOption index)
  | .assign _ target value => .assign none target.unplaced value.unplaced
  | .arrow _ params (.block body) =>
    .arrow none (unplacedParams params) (.block (unplacedList body))
  | .arrow _ params (.value body) => .arrow none (unplacedParams params) (.value body.unplaced)
  | .array _ elements => .array none (unplacedList elements)
  | .object _ properties => .object none (unplacedEntries properties)
  | .conditional _ condition consequent alternate =>
    .conditional none condition.unplaced consequent.unplaced alternate.unplaced
  | .pipe _ left right => .pipe none left.unplaced right.unplaced
  | .element _ tag attributes children selfClosing =>
    .element none tag (unplacedEntries attributes) (unplacedList children) selfClosing
  | .text _ value => .text none value
  | .interpolation _ value => .interpolation none value.unplaced
  | .use _ name props children selfClosing =>
    .use none name (unplacedEntries props) (unplacedList children) selfClosing
  | .returning _ value => .returning none (unplacedOption value)
  | .ifElse _ condition consequent alternate =>
    .ifElse none condition.unplaced (unplacedList consequent) (unplacedOptionList alternate)
  | .forEach _ name iterable body => .forEach none name iterable.unplaced (unplacedList body)
  | .expression _ value => .expression none value.unplaced
  | .block _ body => .block none (unplacedList body)
  | .component _ name params body =>
    .component none name (unplacedParams params) (unplacedList body)
  | .function _ name params result body =>
    .function none name (unplacedParams params) result (unplacedList body)
  | .binding _ name mutable written value => .binding none name mutable written value.unplaced
  | .state _ name written value => .state none name written value.unplaced
  | .effect _ dependencies body => .effect none dependencies (unplacedList body)
  | .style _ name properties => .style none name (unplacedEntries properties)
  | .imports _ specifiers source => .imports none specifiers source
  | .exports _ specifiers declaration =>
    .exports none specifiers (unplacedOption declaration)
  | .program _ body _ => .program none (unplacedList body) ""

def unplacedList : List Node → List Node
  | [] => []
  | n :: ns => n.unplaced :: unplacedList ns

def unplacedOption : Option Node → Option Node
  | none => none
  | some n => some n.unplaced

def unplacedOptionList : Option (List Node) → Option (List Node)
  | none => none
  | some ns => some (unplacedList ns)

def unplacedEntries : List (Entry Node) → List (Entry Node)
  | [] => []
  | ⟨name, value⟩ :: es => ⟨name, unplacedOption value⟩ :: unplacedEntries es

def unplacedParams : List (Param Node) → List (Param Node)
  | [] => []
  | ⟨name, written, value⟩ :: ps => ⟨name, written, unplacedOption value⟩ :: unplacedParams ps

def unplacedParts : List (Part Node) → List (Part Node)
  | [] => []
  | .text s :: ps => .text s :: unplacedParts ps
  | .hole e :: ps => .hole e.unplaced :: unplacedParts ps

end

def unplacedEntry (e : Entry Node) : Entry Node := ⟨e.name, e.value.map unplaced⟩

def unplacedParam (p : Param Node) : Param Node := ⟨p.name, p.written, p.default.map unplaced⟩

/-- A part of a template without places. -/
def unplacedPart : Part Node → Part Node
  | .text s => .text s
  | .hole e => .hole e.unplaced

def unplacedBody : Body Node → Body Node
  | .block statements => .block (statements.map unplaced)
  | .value n => .value n.unplaced

@[simp] lemma unplacedList_eq_map (ns : List Node) : unplacedList ns = ns.map unplaced := by
  induction ns with
  | nil => simp [unplacedList]
  | cons n ns ih => simp [unplacedList, ih]

@[simp] lemma unplacedOption_eq_map (n : Option Node) : unplacedOption n = n.map unplaced := by
  cases n <;> simp [unplacedOption]

@[simp] lemma unplacedOptionList_eq_map (ns : Option (List Node)) :
    unplacedOptionList ns = ns.map (List.map unplaced) := by
  cases ns <;> simp [unplacedOptionList]

@[simp] lemma unplacedEntries_eq_map (es : List (Entry Node)) :
    unplacedEntries es = es.map unplacedEntry := by
  induction es with
  | nil => simp [unplacedEntries]
  | cons e es ih => simp [unplacedEntries, unplacedEntry, ih]

@[simp] lemma unplacedParams_eq_map (ps : List (Param Node)) :
    unplacedParams ps = ps.map unplacedParam := by
  induction ps with
  | nil => simp [unplacedParams]
  | cons p ps ih => simp [unplacedParams, unplacedParam, ih]

@[simp] lemma unplacedParts_eq_map (ps : List (Part Node)) :
    unplacedParts ps = ps.map unplacedPart := by
  induction ps with
  | nil => simp [unplacedParts]
  | cons p ps ih => cases p <;> simp [unplacedParts, unplacedPart, ih]

lemma unplaced_arrow (place : Option Place) (params : List (Param Node)) (body : Body Node) :
    (Node.arrow place params body).unplaced =
      .arrow none (params.map unplacedParam) (unplacedBody body) := by
  cases body <;> simp [unplaced, unplacedBody]

end Node

end UiScript
