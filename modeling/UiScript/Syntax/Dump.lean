import UiScript.Syntax.Basic

/-!
# The tree as data

A node becomes a dictionary of its form and its fields, without places. Two trees are the same if
their data are.
-/

namespace UiScript

mutual

def TypeExpr.toValue : TypeExpr → Value
  | .mk name arguments =>
    .dict [("name", .str name), ("generic_args", .list (TypeExpr.listToValues arguments))]

def TypeExpr.listToValues : List TypeExpr → List Value
  | [] => []
  | a :: as => a.toValue :: TypeExpr.listToValues as

end

def TypeExpr.optionToValue (a : Option TypeExpr) : Value := (a.map toValue).getD .null

namespace Node

def namesToValue (names : List String) : Value := .list (names.map .str)

mutual

def toValue : Node → Value
  | n@(.bare _ _) => .dict [("type", .str n.formName)]
  | .identifier _ name => .dict [("type", .str "Identifier"), ("name", .str name)]
  | .number _ value => .dict [("type", .str "NumberLiteral"), ("value", value.toValue .shared)]
  | .string _ value => .dict [("type", .str "StringLiteral"), ("value", .str value)]
  | .boolean _ value => .dict [("type", .str "BooleanLiteral"), ("value", .bool value)]
  | .null _ => .dict [("type", .str "NullLiteral")]
  | .template _ parts =>
    .dict [("type", .str "TemplateLiteral"), ("parts", .list (partsToValues parts))]
  | .binary _ op left right =>
    .dict [("type", .str "BinaryExpr"), ("operator", .str op), ("left", left.toValue),
      ("right", right.toValue)]
  | .unary _ op operand =>
    .dict [("type", .str "UnaryExpr"), ("operator", .str op), ("operand", operand.toValue)]
  | .call _ callee arguments =>
    .dict [("type", .str "CallExpr"), ("callee", callee.toValue),
      ("arguments", .list (listToValues arguments))]
  | .member _ obj property computed index =>
    .dict [("type", .str "MemberExpr"), ("object", obj.toValue), ("property", .str property),
      ("computed", .bool computed), ("index", optionToValue index)]
  | .assign _ target value =>
    .dict [("type", .str "AssignExpr"), ("target", target.toValue), ("value", value.toValue)]
  | .arrow _ params (.block body) =>
    .dict [("type", .str "ArrowFunction"), ("params", .list (paramsToValues params)),
      ("body", .list (listToValues body))]
  | .arrow _ params (.value body) =>
    .dict [("type", .str "ArrowFunction"), ("params", .list (paramsToValues params)),
      ("body", body.toValue)]
  | .array _ elements =>
    .dict [("type", .str "ArrayLiteral"), ("elements", .list (listToValues elements))]
  | .object _ properties =>
    .dict [("type", .str "ObjectLiteral"),
      ("properties", .list (entriesToValues "key" properties))]
  | .conditional _ condition consequent alternate =>
    .dict [("type", .str "ConditionalExpr"), ("condition", condition.toValue),
      ("consequent", consequent.toValue), ("alternate", alternate.toValue)]
  | .pipe _ left right =>
    .dict [("type", .str "PipeExpr"), ("left", left.toValue), ("right", right.toValue)]
  | .element _ tag attributes children selfClosing =>
    .dict [("type", .str "UIElement"), ("tag", .str tag),
      ("attributes", .list (entriesToValues "name" attributes)),
      ("children", .list (listToValues children)), ("self_closing", .bool selfClosing)]
  | .text _ value => .dict [("type", .str "UIText"), ("value", .str value)]
  | .interpolation _ value =>
    .dict [("type", .str "UIExpression"), ("expression", value.toValue)]
  | .use _ name props children selfClosing =>
    .dict [("type", .str "ComponentInstance"), ("name", .str name),
      ("props", .list (entriesToValues "name" props)),
      ("children", .list (listToValues children)), ("self_closing", .bool selfClosing)]
  | .returning _ value =>
    .dict [("type", .str "ReturnStatement"), ("value", optionToValue value)]
  | .ifElse _ condition consequent alternate =>
    .dict [("type", .str "IfStatement"), ("condition", condition.toValue),
      ("consequent", .list (listToValues consequent)),
      ("alternate", optionListToValue alternate)]
  | .forEach _ name iterable body =>
    .dict [("type", .str "ForStatement"), ("variable", .str name), ("iterable", iterable.toValue),
      ("body", .list (listToValues body))]
  | .expression _ value =>
    .dict [("type", .str "ExpressionStatement"), ("expression", value.toValue)]
  | .block _ body => .dict [("type", .str "BlockStatement"), ("body", .list (listToValues body))]
  | .component _ name params body =>
    .dict [("type", .str "ComponentDecl"), ("name", .str name),
      ("params", .list (paramsToValues params)), ("body", .list (listToValues body))]
  | .function _ name params result body =>
    .dict [("type", .str "FunctionDecl"), ("name", .str name),
      ("params", .list (paramsToValues params)), ("return_type", TypeExpr.optionToValue result),
      ("body", .list (listToValues body))]
  | .binding _ name mutable written value =>
    .dict [("type", .str "VariableDecl"), ("name", .str name), ("mutable", .bool mutable),
      ("type_annotation", TypeExpr.optionToValue written), ("value", value.toValue)]
  | .state _ name written value =>
    .dict [("type", .str "StateDecl"), ("name", .str name),
      ("type_annotation", TypeExpr.optionToValue written), ("value", value.toValue)]
  | .effect _ dependencies body =>
    .dict [("type", .str "EffectDecl"), ("dependencies", namesToValue dependencies),
      ("body", .list (listToValues body))]
  | .style _ name properties =>
    .dict [("type", .str "StyleDecl"), ("name", (name.map Value.str).getD .null),
      ("properties", .list (entriesToValues "key" properties))]
  | .imports _ specifiers source =>
    .dict [("type", .str "ImportDecl"), ("specifiers", namesToValue specifiers),
      ("source", .str source)]
  | .exports _ specifiers declaration =>
    .dict [("type", .str "ExportDecl"), ("specifiers", namesToValue specifiers),
      ("declaration", optionToValue declaration)]
  | .program _ body _ => .dict [("type", .str "Program"), ("body", .list (listToValues body))]

def listToValues : List Node → List Value
  | [] => []
  | n :: ns => n.toValue :: listToValues ns

def optionToValue : Option Node → Value
  | none => .null
  | some n => n.toValue

def optionListToValue : Option (List Node) → Value
  | none => .null
  | some ns => .list (listToValues ns)

/-- The name of an entry goes under the given key. -/
def entriesToValues (key : String) : List (Entry Node) → List Value
  | [] => []
  | ⟨name, value⟩ :: es =>
    .dict [(key, .str name), ("value", optionToValue value)] :: entriesToValues key es

def paramsToValues : List (Param Node) → List Value
  | [] => []
  | ⟨name, written, value⟩ :: ps =>
    .dict [("name", .str name), ("type_annotation", TypeExpr.optionToValue written),
      ("default_value", optionToValue value)] :: paramsToValues ps

def partsToValues : List (Part Node) → List Value
  | [] => []
  | .text s :: ps => .str s :: partsToValues ps
  | .hole e :: ps => e.toValue :: partsToValues ps

end

end Node

namespace Program

def toValue (p : Program) : Value :=
  .dict [("type", .str "Program"), ("body", .list (Node.listToValues p.body))]

/-- The same tree, places and file apart; numbers are the same if they are equal. -/
def same (p q : Program) : Bool := p.toValue.same q.toValue

end Program

end UiScript
