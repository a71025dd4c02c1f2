import UiScript.Script.Text

/-!
# The state of generation

What is gathered while a program is turned into code: components, style rules, published names and
the number of the next element. The names of the component's state are those of the scope that is
being written.
-/

namespace UiScript.Script

structure Generator where
  title : String
  components : List String := []
  /-- The class of each named style. -/
  styles : Dict String := []
  /-- The style rules so far. -/
  css : List String := []
  /-- The names published so far. -/
  published : List String := []
  /-- The state names of the component that are not hidden in the current scope. -/
  stateNames : List String := []
  nextElement : Nat := 0
  remarks : List String := []
  deriving Inhabited

/-- Why code cannot be generated. -/
inductive GenerateError where
  /-- A node lacks an expression that its form needs. -/
  | missingExpression
  deriving DecidableEq, Inhabited

def GenerateError.message : GenerateError → String
  | .missingExpression => "'NoneType' object has no attribute 'type'"

abbrev Gen := StateT Generator (Except GenerateError)

/-- A variable for the next element. -/
def newElement : Gen String := do
  let g ← get
  set { g with nextElement := g.nextElement + 1 }
  return s!"__e{g.nextElement}"

def withStateNames {α : Type} (change : List String → List String) (action : Gen α) : Gen α := do
  let saved := (← get).stateNames
  modify fun g => { g with stateNames := change saved }
  let a ← action
  modify fun g => { g with stateNames := saved }
  return a

/-- Runs an action in a scope that binds some names anew. -/
def rebinding {α : Type} (names : List String) (action : Gen α) : Gen α :=
  withStateNames (fun saved => saved.filter fun name => !names.contains name) action

/-- How a node is written in each place where it can stand. -/
structure Forms where
  /-- As an expression. -/
  expr : Gen String
  stmt : Gen String
  /-- As a child of markup whose parent element has the given variable: lines of code. -/
  child : String → Gen (List String)
  /-- As state of a component. -/
  cell : Gen String := stmt

namespace Forms

def ofExpr (code : Gen String) : Forms :=
  let stmt := (· ++ ";") <$> code
  { expr := code, stmt, child := fun _ => Text.lines <$> stmt }

def unknown (n : Node) : Gen String := return s!"/* unknown: {n.formName} */"

/-- The forms of a statement or declaration, which is no expression. -/
def ofStmt (expr code : Gen String) : Forms :=
  { expr, stmt := code, child := fun _ => Text.lines <$> code }

def ofChild (expr : Gen String) (lines : String → Gen (List String)) : Forms :=
  { ofExpr expr with child := lines }

end Forms

abbrev Lowered := Node × Forms

/-! ### Running forms in order -/

/-- The results of some actions in order. -/
def inOrder {α : Type} : List (Gen α) → Gen (List α)
  | [] => return []
  | action :: actions => do
    let a ← action
    return a :: (← inOrder actions)

def required : Option Lowered → Gen String
  | some n => n.2.expr
  | none => throw .missingExpression

/-! ### What is seen of a node -/

def bareName? : Node → Option String
  | .identifier _ name => some name
  | _ => none

def isObject : Node → Bool
  | .object .. => true
  | _ => false

def isIf : Node → Bool
  | .ifElse .. => true
  | _ => false

/-- The text that a literal is written as in a style rule. -/
def styleText? : Node → Option String
  | .number _ value => some (numericText value ++ "px")
  | .string _ value => some value
  | _ => none

/-! ### Parentheses -/

def isLooseOperand : Node → Bool
  | .assign .. | .arrow .. => true
  | _ => false

/-- Looser than an operator in front. -/
def isLooseSigned : Node → Bool
  | .unary .. => true
  | n => isLooseOperand n

/-- Looser than a call; a template before parentheses would be read as another one's tag. -/
def isLooseCallee : Node → Bool
  | .template .. => true
  | n => isLooseSigned n

/-- Looser than a member access; the point of an access would be read as part of a number. -/
def isLooseObject : Node → Bool
  | .number .. => true
  | n => isLooseSigned n

def operand (isLoose : Node → Bool) (n : Lowered) : Gen String := do
  let code ← n.2.expr
  return if isLoose n.1 then "(" ++ code ++ ")" else code

end UiScript.Script
