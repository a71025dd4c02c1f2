import UiScript.Diagnostic

/-!
# The syntax tree

Declarations, statements, expressions and markup are nodes of one tree, since markup stands among
expressions and statements among markup. A node keeps the place where it was read, if it was read.
The tree itself allows more than the grammar does, for instance a property without a value.
-/

namespace UiScript

inductive TypeExpr where
  | mk (name : String) (arguments : List TypeExpr)
  deriving Inhabited

structure Param (α : Type) where
  name : String
  written : Option TypeExpr := none
  default : Option α := none
  deriving Inhabited

/-- A named value: a property, a style property, an attribute or a prop. -/
structure Entry (α : Type) where
  name : String
  value : Option α := none
  deriving Inhabited

/-- A part of a template: literal text or an expression. -/
inductive Part (α : Type) where
  | text (s : String)
  | hole (expression : α)
  deriving Inhabited

/-- The body of an arrow function: statements or one expression. -/
inductive Body (α : Type) where
  | block (statements : List α)
  | value (expression : α)
  deriving Inhabited

/-- The value of a number literal; a tree built by hand may hold a truth value there. -/
inductive Numeric where
  | number (n : Number)
  | truth (b : Bool)
  deriving DecidableEq, Inhabited

def Numeric.toValue (origin : Origin) : Numeric → Value
  | .number n => .ofNumber origin n
  | .truth b => .bool b

inductive NodeClass where
  | node | expression | statement | declaration
  deriving DecidableEq, Inhabited

inductive Node where
  | bare (place : Option Place) (cls : NodeClass)
  -- expressions
  | identifier (place : Option Place) (name : String)
  | number (place : Option Place) (value : Numeric)
  | string (place : Option Place) (value : String)
  | boolean (place : Option Place) (value : Bool)
  | null (place : Option Place)
  | template (place : Option Place) (parts : List (Part Node))
  | binary (place : Option Place) (op : String) (left right : Node)
  | unary (place : Option Place) (op : String) (operand : Node)
  | call (place : Option Place) (callee : Node) (arguments : List Node)
  | member (place : Option Place) (object : Node) (property : String) (computed : Bool)
      (index : Option Node)
  | assign (place : Option Place) (target value : Node)
  | arrow (place : Option Place) (params : List (Param Node)) (body : Body Node)
  | array (place : Option Place) (elements : List Node)
  | object (place : Option Place) (properties : List (Entry Node))
  | conditional (place : Option Place) (condition consequent alternate : Node)
  | pipe (place : Option Place) (left right : Node)
  -- markup
  | element (place : Option Place) (tag : String) (attributes : List (Entry Node))
      (children : List Node) (selfClosing : Bool)
  | text (place : Option Place) (value : String)
  | interpolation (place : Option Place) (expression : Node)
  | use (place : Option Place) (name : String) (props : List (Entry Node)) (children : List Node)
      (selfClosing : Bool)
  -- statements
  | returning (place : Option Place) (value : Option Node)
  | ifElse (place : Option Place) (condition : Node) (consequent : List Node)
      (alternate : Option (List Node))
  | forEach (place : Option Place) (name : String) (iterable : Node) (body : List Node)
  | expression (place : Option Place) (value : Node)
  | block (place : Option Place) (body : List Node)
  -- declarations
  | component (place : Option Place) (name : String) (params : List (Param Node))
      (body : List Node)
  | function (place : Option Place) (name : String) (params : List (Param Node))
      (result : Option TypeExpr) (body : List Node)
  | binding (place : Option Place) (name : String) (mutable : Bool)
      (written : Option TypeExpr) (value : Node)
  | state (place : Option Place) (name : String) (written : Option TypeExpr) (value : Node)
  | effect (place : Option Place) (dependencies : List String) (body : List Node)
  | style (place : Option Place) (name : Option String) (properties : List (Entry Node))
  | imports (place : Option Place) (specifiers : List String) (source : String)
  | exports (place : Option Place) (specifiers : List String) (declaration : Option Node)
  | program (place : Option Place) (body : List Node) (file : String)

instance : Inhabited Node := ⟨.bare none .node⟩

/-- A program: its top-level nodes and the file they were read from. -/
structure Program where
  body : List Node
  file : String := "<stdin>"
  place : Option Place := none
  deriving Inhabited

def TypeExpr.text : TypeExpr → String
  | .mk name [] => name
  | .mk name (a :: as) => name ++ "<" ++ String.intercalate ", " (a.text :: texts as) ++ ">"
where
  texts : List TypeExpr → List String
    | [] => []
    | a :: as => a.text :: texts as

namespace Node

def place : Node → Option Place
  | .bare p _ | .identifier p _ | .number p _ | .string p _ | .boolean p _ | .null p
  | .template p _ | .binary p _ _ _ | .unary p _ _ | .call p _ _ | .member p _ _ _ _
  | .assign p _ _ | .arrow p _ _ | .array p _ | .object p _ | .conditional p _ _ _ | .pipe p _ _
  | .element p _ _ _ _ | .text p _ | .interpolation p _ | .use p _ _ _ _
  | .returning p _ | .ifElse p _ _ _ | .forEach p _ _ _ | .expression p _ | .block p _
  | .component p _ _ _ | .function p _ _ _ _ | .binding p _ _ _ _ | .state p _ _ _
  | .effect p _ _ | .style p _ _ | .imports p _ _ | .exports p _ _ | .program p _ _ => p

/-- The name of a node's form in listings. -/
def formName : Node → String
  | .bare _ .node => "Node"
  | .bare _ .expression => "Expr"
  | .bare _ .statement => "Statement"
  | .bare _ .declaration => "Declaration"
  | .identifier .. => "Identifier"
  | .number .. => "NumberLiteral"
  | .string .. => "StringLiteral"
  | .boolean .. => "BooleanLiteral"
  | .null .. => "NullLiteral"
  | .template .. => "TemplateLiteral"
  | .binary .. => "BinaryExpr"
  | .unary .. => "UnaryExpr"
  | .call .. => "CallExpr"
  | .member .. => "MemberExpr"
  | .assign .. => "AssignExpr"
  | .arrow .. => "ArrowFunction"
  | .array .. => "ArrayLiteral"
  | .object .. => "ObjectLiteral"
  | .conditional .. => "ConditionalExpr"
  | .pipe .. => "PipeExpr"
  | .element .. => "UIElement"
  | .text .. => "UIText"
  | .interpolation .. => "UIExpression"
  | .use .. => "ComponentInstance"
  | .returning .. => "ReturnStatement"
  | .ifElse .. => "IfStatement"
  | .forEach .. => "ForStatement"
  | .expression .. => "ExpressionStatement"
  | .block .. => "BlockStatement"
  | .component .. => "ComponentDecl"
  | .function .. => "FunctionDecl"
  | .binding .. => "VariableDecl"
  | .state .. => "StateDecl"
  | .effect .. => "EffectDecl"
  | .style .. => "StyleDecl"
  | .imports .. => "ImportDecl"
  | .exports .. => "ExportDecl"
  | .program .. => "Program"

/-- The declaration that a node makes, looking through one `export`. -/
def declared : Node → Option Node
  | .exports _ _ d => d
  | n => some n

end Node

end UiScript
