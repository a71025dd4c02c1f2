import UiScript.Types.Scope

/-!
# Type checking

A program is checked in two passes: the components, functions and imported names of the top level
are registered first, so that they may be used before they are declared. The checker only collects
diagnostics; a name that is not known goes on as `Any`.
-/

namespace UiScript.Types

/-- What is gathered while checking, and where the checker stands. -/
structure Checker where
  scopes : Scopes := .initial
  /-- What the current function must return; nothing is required at the top level. -/
  result : Option Ty := none
  /-- The name of the current function. -/
  function : Option String := none
  diagnostics : List Diagnostic := []
  components : Dict Ty := []
  /-- The imported names, each once. -/
  imported : List String := []

instance : Inhabited Checker := ⟨{}⟩

/-- The frames that a name is looked up in. -/
def Checker.scope (c : Checker) : Scope := c.scopes.visible

abbrev Check := StateM Checker

def report (d : Diagnostic) : Check Unit :=
  modify fun c => { c with diagnostics := c.diagnostics ++ [d] }

def defineIn (i : Nat) (name : String) (t : Ty) : Check Unit :=
  modify fun c => { c with scopes := c.scopes.defineIn i name t }

/-- Defines a name in the current frame. -/
def define (name : String) (t : Ty) : Check Unit := do
  defineIn (← get).scopes.current name t

def lookup (name : String) (place : Option Place) : Check Ty := do
  match (← get).scope.lookup? name with
  | some t => return t
  | none =>
    report (.nameError s!"Undefined variable: {name}" name place)
    return .any

/-- Adds a frame inside the current one and gives its number. -/
def openFrame : Check Nat :=
  modifyGet fun c => (c.scopes.opened.1, { c with scopes := c.scopes.opened.2 })

/-- Runs a check in a frame and comes back to the current one. -/
def withFrame {α : Type} (i : Nat) (check : Check α) : Check α := do
  let saved := (← get).scopes.current
  modify fun c => { c with scopes := c.scopes.enter i }
  let a ← check
  modify fun c => { c with scopes := c.scopes.enter saved }
  return a

/-- Runs a check of what must return a type. -/
def withResult {α : Type} (result : Ty) (check : Check α) : Check α := do
  let saved := (← get).result
  modify fun c => { c with result := some result }
  let a ← check
  modify fun c => { c with result := saved }
  return a

/-- Runs a check inside a function. -/
def withFunction {α : Type} (name : String) (result : Ty) (check : Check α) : Check α := do
  let c ← get
  modify fun d => { d with result := some result, function := some name }
  let a ← check
  modify fun d => { d with result := c.result, function := c.function }
  return a

def mismatch (message : String) (place : Option Place) (expected actual : Ty) : Check Unit :=
  report (.typeError message place (some expected.text) (some actual.text))

def inOrder {α : Type} : List (Check α) → Check (List α)
  | [] => return []
  | check :: checks => do
    let a ← check
    return a :: (← inOrder checks)

/-- How a node is checked in each place where it can stand. -/
structure Judgement where
  /-- As an expression: its type. -/
  infer : Check Ty
  check : Check Unit

namespace Judgement

/-- An expression may stand as a statement. -/
def ofExpr (infer : Check Ty) : Judgement where
  infer
  check := discard infer

/-- A statement is no expression. -/
def ofStmt (check : Check Unit) : Judgement where
  infer := return .any
  check

end Judgement

abbrev Judged := Node × Judgement

/-- The type of an expression that may be missing. -/
def inferOption : Option Judged → Check Ty
  | some n => n.2.infer
  | none => return .any

/-! ### Blocks and functions -/

def paramTypes {α : Type} (params : List (Param α)) : List Ty :=
  params.map fun p => .ofWritten p.written

/-- Registers the function that a statement of a block declares. -/
def registerFunction (n : Node) : Check Unit :=
  match n with
  | .function _ name params result _ =>
    define name (.function (paramTypes params) (.ofWritten result))
  | _ => return ()

/-- Checks the statements of a block in a frame; its functions may be called before they are
declared. -/
def checkBlockIn (i : Nat) (statements : List Judged) : Check Unit :=
  withFrame i do
    let _ ← inOrder (statements.map fun n => registerFunction n.1)
    let _ ← inOrder (statements.map (·.2.check))

def checkBlock (statements : List Judged) : Check Unit := do
  checkBlockIn (← openFrame) statements

/-- Defines some parameters in a frame. Their default values are checked outside it. -/
def defineParams (i : Nat) : List (Param Judged) → Check Unit
  | [] => return ()
  | p :: ps => do
    let _ ← inferOption p.default
    defineIn i p.name (.ofWritten p.written)
    defineParams i ps

/-- Opens a frame with some parameters. -/
def bindParams (params : List (Param Judged)) : Check Nat := do
  let i ← openFrame
  defineParams i params
  return i

/-- Checks a body that may return anything. -/
def checkFreeBody (i : Nat) (body : List Judged) : Check Unit :=
  withResult .any (checkBlockIn i body)

/-! ### Declarations and statements -/

def checkComponent (params : List (Param Judged)) (body : List Judged) : Check Unit := do
  checkFreeBody (← bindParams params) body

def checkFunction (name : String) (params : List (Param Judged)) (result : Option TypeExpr)
    (body : List Judged) : Check Unit := do
  let i ← bindParams params
  withFunction name (.ofWritten result) (checkBlockIn i body)

/-- Checks a variable or a state and defines it. What is not annotated takes the type of its
value. -/
def checkBinding (what name : String) (written : Option TypeExpr) (value : Judged)
    (place : Option Place) : Check Unit := do
  let actual ← value.2.infer
  let declared := Ty.ofWritten written
  if !actual.isCompatible declared then
    mismatch s!"{what} {name} declared as {declared.text} but initialized with {actual.text}" place
      declared actual
  define name (if declared.same .any then actual else declared)

def checkReturn (value : Option Judged) (place : Option Place) : Check Unit := do
  match value with
  | none => return ()
  | some v =>
    let actual ← v.2.infer
    let c ← get
    match c.result with
    | none => return ()
    | some expected =>
      if !actual.isCompatible expected then
        let name := match c.function with
          | some n => if n.isEmpty then "<anonymous>" else n
          | none => "<anonymous>"
        mismatch s!"Function {name} returns {actual.text} but expected {expected.text}" place
          expected actual

def checkIf (condition : Judged) (consequent : List Judged) (alternate : Option (List Judged))
    (place : Option Place) : Check Unit := do
  let t ← condition.2.infer
  if !t.isCompatible .bool then
    mismatch s!"If condition must be Bool but got {t.text}" place .bool t
  checkBlock consequent
  match alternate with
  | some others => checkBlock others
  | none => return ()

def checkFor (name : String) (iterable : Judged) (body : List Judged) : Check Unit := do
  let element := match ← iterable.2.infer with
    | .array t => t
    | _ => .any
  let i ← openFrame
  defineIn i name element
  checkBlockIn i body

/-! ### Expressions -/

def arithmeticOperators : List String := ["-", "*", "/", "%"]
def comparisonOperators : List String := ["==", "!=", "<", ">", "<=", ">="]
def logicalOperators : List String := ["&&", "||"]

/-- Both operands must have one type, which is also that of the result. -/
def inferUniform (op : String) (required left right : Ty) (place : Option Place) : Check Ty := do
  if !(left.same required && right.same required) then
    mismatch s!"Operator {op} requires {required.text} operands" place required
      (if left.same required then right else left)
  return required

def inferBinary (op : String) (left right : Judged) (place : Option Place) : Check Ty := do
  let l ← left.2.infer
  let r ← right.2.infer
  if op == "+" then
    if l.same .string || r.same .string then return .string
    else if l.same .int && r.same .int then return .int
    else return .any
  else if arithmeticOperators.contains op then inferUniform op .int l r place
  else if comparisonOperators.contains op then return .bool
  else if logicalOperators.contains op then inferUniform op .bool l r place
  else return .any

def inferUnary (op : String) (operand : Judged) (place : Option Place) : Check Ty := do
  let t ← operand.2.infer
  let requires (required : Ty) : Check Ty := do
    if !t.same required then
      mismatch s!"Operator {op} requires {required.text} operand" place required t
    return required
  if op == "!" then requires .bool
  else if op == "-" then requires .int
  else return .any

/-- Only names and members can be assigned. -/
def isTarget : Node → Bool
  | .identifier .. | .member .. => true
  | _ => false

def inferAssign (target value : Judged) (place : Option Place) : Check Ty := do
  if !isTarget target.1 then
    report (.typeError "Invalid assignment target" place)
    value.2.infer
  else
    let expected ← target.2.infer
    let actual ← value.2.infer
    if !actual.isCompatible expected then
      mismatch s!"Cannot assign {actual.text} to {expected.text}" place expected actual
    return actual

/-- Checks arguments against parameters, from the one with the given number on. An argument without
a parameter is only typed. -/
def checkArguments (place : Option Place) : Nat → List Ty → List Judged → Check Unit
  | _, _, [] => return ()
  | i, [], a :: as => do
    let _ ← a.2.infer
    checkArguments place (i + 1) [] as
  | i, expected :: params, a :: as => do
    let actual ← a.2.infer
    if !actual.isCompatible expected then
      mismatch s!"Argument {i} expects {expected.text} but got {actual.text}" (a.1.place <|> place)
        expected actual
    checkArguments place (i + 1) params as

def inferCall (callee : Judged) (arguments : List Judged) (place : Option Place) : Check Ty := do
  match ← callee.2.infer with
  | .function params result =>
    let expected := params.length
    let actual := arguments.length
    if actual != expected then
      report (.typeError s!"Function expects {expected} arguments but got {actual}" place
        (some (toString expected)) (some (toString actual)))
    checkArguments place 1 params arguments
    return result
  | _ =>
    let _ ← inOrder (arguments.map (·.2.infer))
    return .any

def inferMember (obj : Judged) (property : String) (computed : Bool) (index : Option Judged) :
    Check Ty := do
  let t ← obj.2.infer
  if computed then
    let _ ← inferOption index
    match t with
    | .array element => return element
    | _ => return .any
  else
    match t with
    | .object _ => return (t.field? property).getD .any
    | _ => return .any

def inferArray (elements : List Judged) : Check Ty := do
  match ← inOrder (elements.map (·.2.infer)) with
  | first :: _ => return .array first
  | [] => return .array .any

def inferObject (properties : List (Entry Judged)) : Check Ty := do
  let types ← inOrder (properties.map fun p => inferOption p.value)
  return .object ((properties.map (·.name)).zip types)

def inferArrow (params : List (Param Judged)) (body : Body Judged) : Check Ty := do
  let i ← bindParams params
  let result ← match body with
    | .block statements => do
      checkFreeBody i statements
      pure .any
    | .value n => withFrame i n.2.infer
  return .function (paramTypes params) result

/-! ### Markup -/

def checkElement (attributes : List (Entry Judged)) (children : List Judged) : Check Ty := do
  let _ ← inOrder (attributes.map fun a => inferOption a.value)
  let _ ← inOrder (children.map (·.2.check))
  return .any

/-- Checks the value of one prop against the type of the component, if that is known. -/
def checkProp (component : String) (type? : Option Ty) (place : Option Place)
    (prop : Entry Judged) : Check Unit := do
  match prop.value with
  | none => return ()
  | some v =>
    let actual ← v.2.infer
    match type?.bind (·.field? prop.name) with
    | none => return ()
    | some expected =>
      if !actual.isCompatible expected then
        mismatch
          s!"Component {component} prop {prop.name} expects {expected.text} but got {actual.text}"
          (v.1.place <|> place) expected actual

def checkInstance (name : String) (props : List (Entry Judged)) (children : List Judged)
    (place : Option Place) : Check Ty := do
  let c ← get
  let type? := Dict.get? c.components name
  if type?.isNone && !c.imported.contains name then
    report (.nameError s!"Unknown component: {name}" name place)
  let _ ← inOrder (props.map (checkProp name type? place))
  let _ ← inOrder (children.map (·.2.check))
  return .any

/-! ### All judgements of a node -/

mutual

def judge : Node → Judgement
  | .number _ _ => .ofExpr (return .int)
  | .string _ _ => .ofExpr (return .string)
  | .boolean _ _ => .ofExpr (return .bool)
  | .null _ => .ofExpr (return .null)
  | .template _ parts => .ofExpr do
    let _ ← inOrder (judgeParts parts)
    return .string
  | .identifier place name => .ofExpr (lookup name place)
  | .array _ elements => .ofExpr (inferArray (judgeList elements))
  | .object _ properties => .ofExpr (inferObject (judgeEntries properties))
  | .binary place op left right =>
    .ofExpr (inferBinary op (left, judge left) (right, judge right) place)
  | .unary place op operand => .ofExpr (inferUnary op (operand, judge operand) place)
  | .assign place target value =>
    .ofExpr (inferAssign (target, judge target) (value, judge value) place)
  | .call place callee arguments =>
    .ofExpr (inferCall (callee, judge callee) (judgeList arguments) place)
  | .member _ obj property computed index =>
    .ofExpr (inferMember (obj, judge obj) property computed (judgeOption index))
  | .conditional _ condition consequent alternate => .ofExpr do
    let _ ← (judge condition).infer
    let yes ← (judge consequent).infer
    let no ← (judge alternate).infer
    return if yes.same no then yes else .any
  | .pipe _ left right => .ofExpr do
    let _ ← (judge left).infer
    match ← (judge right).infer with
    | .function _ result => return result
    | _ => return .any
  | .arrow _ params (.block body) =>
    .ofExpr (inferArrow (judgeParams params) (.block (judgeList body)))
  | .arrow _ params (.value body) =>
    .ofExpr (inferArrow (judgeParams params) (.value (body, judge body)))
  | .element _ _ attributes children _ =>
    .ofExpr (checkElement (judgeEntries attributes) (judgeList children))
  | .use place name props children _ =>
    .ofExpr (checkInstance name (judgeEntries props) (judgeList children) place)
  | .component _ _ params body => .ofStmt (checkComponent (judgeParams params) (judgeList body))
  | .function _ name params result body =>
    .ofStmt (checkFunction name (judgeParams params) result (judgeList body))
  | .binding place name _ written value =>
    .ofStmt (checkBinding "Variable" name written (value, judge value) place)
  | .state place name written value =>
    .ofStmt (checkBinding "State" name written (value, judge value) place)
  | .effect place dependencies body => .ofStmt do
    let _ ← inOrder (dependencies.map fun d => lookup d place)
    withResult .any (checkBlock (judgeList body))
  | .style _ _ properties => .ofStmt do
    let _ ← inOrder ((judgeEntries properties).map fun p => inferOption p.value)
  | .exports place specifiers declaration => .ofStmt <|
    match judgeOption declaration with
    | some n => n.2.check
    | none => do let _ ← inOrder (specifiers.map fun s => lookup s place)
  | .returning place value => .ofStmt (checkReturn (judgeOption value) place)
  | .ifElse place condition consequent alternate =>
    .ofStmt (checkIf (condition, judge condition) (judgeList consequent)
      (judgeOptionList alternate) place)
  | .forEach _ name iterable body =>
    .ofStmt (checkFor name (iterable, judge iterable) (judgeList body))
  | .block _ body => .ofStmt (checkBlock (judgeList body))
  | .expression _ value => .ofStmt (discard (judge value).infer)
  | .interpolation _ value => .ofStmt (discard (judge value).infer)
  | .imports _ _ _ => .ofStmt (return ())
  | .text _ _ => .ofStmt (return ())
  | .bare _ _ => .ofStmt (return ())
  | .program _ _ _ => .ofStmt (return ())

def judgeList : List Node → List Judged
  | [] => []
  | n :: ns => (n, judge n) :: judgeList ns

def judgeOption : Option Node → Option Judged
  | none => none
  | some n => some (n, judge n)

def judgeOptionList : Option (List Node) → Option (List Judged)
  | none => none
  | some ns => some (judgeList ns)

def judgeEntries : List (Entry Node) → List (Entry Judged)
  | [] => []
  | ⟨name, value⟩ :: es => ⟨name, judgeOption value⟩ :: judgeEntries es

def judgeParams : List (Param Node) → List (Param Judged)
  | [] => []
  | ⟨name, written, value⟩ :: ps => ⟨name, written, judgeOption value⟩ :: judgeParams ps

def judgeParts : List (Part Node) → List (Check Ty)
  | [] => []
  | .text _ :: ps => judgeParts ps
  | .hole e :: ps => (judge e).infer :: judgeParts ps

end

/-! ### Programs -/

/-- The names that a page may use without declaring them. -/
def browserNames : List String := [
  "console", "document", "window", "globalThis", "navigator", "location",
  "localStorage", "sessionStorage", "Math", "JSON", "Date", "Promise",
  "Array", "Object", "String", "Number", "Boolean", "setTimeout",
  "clearTimeout", "setInterval", "clearInterval", "requestAnimationFrame",
  "fetch", "alert", "parseInt", "parseFloat", "isNaN", "undefined", "NaN",
  "Infinity"]

def unwrapped : Node → Node
  | .exports _ _ (some n) => n
  | n => n

/-- Registers what a top level node declares. -/
def register (n : Node) : Check Unit :=
  match unwrapped n with
  | .component _ name params _ => do
    let t := Ty.component name (params.map fun p => (p.name, .ofWritten p.written))
    modify fun c => { c with components := Dict.set name t c.components }
    define name t
  | .imports _ specifiers _ => do
    let _ ← inOrder (specifiers.map fun name => do
      modify fun c => { c with
        imported := if c.imported.contains name then c.imported else c.imported ++ [name] }
      define name .any)
  | n => registerFunction n

/-- Checks a program after those that the checker has seen. -/
def checkProgram (program : Program) : Check Unit := do
  modify fun c => { c with diagnostics := [] }
  let _ ← inOrder (browserNames.map fun name => define name .any)
  let _ ← inOrder (program.body.map register)
  let _ ← inOrder ((judgeList program.body).map (·.2.check))

/-- The checker after a further program. -/
def Checker.step (c : Checker) (program : Program) : Checker := ((checkProgram program).run c).2

/-- The imported names in ascending order. -/
def Checker.importedNames (c : Checker) : List String :=
  c.imported.mergeSort fun a b => decide (a ≤ b)

end UiScript.Types

namespace UiScript

def Program.typeDiagnostics (program : Program) : List Diagnostic :=
  (Types.Checker.step {} program).diagnostics

end UiScript
