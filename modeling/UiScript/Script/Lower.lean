import UiScript.Script.Basic

/-!
# From nodes to code

Each construct has a function that writes it from the forms of its parts. The forms of a tree follow
from those by recursion, at the end of this module.
-/

namespace UiScript.Script

/-! ### Blocks, parameters and styles -/

def blockBinding? : Node → Option String
  | .binding _ name _ _ _ | .function _ name _ _ _ => some name
  | _ => none

def boundNames (statements : List Lowered) : List String :=
  statements.filterMap fun n => blockBinding? n.1

def block (statements : List Lowered) : Gen String :=
  rebinding (boundNames statements) do
    let codes ← inOrder (statements.map (·.2.stmt))
    let codes := codes.filter (!·.isEmpty)
    return if codes.isEmpty then braced ""
      else braced ("\n" ++ Text.indent 1 (Text.unlines codes) ++ "\n")

def parameters (params : List (String × Option Lowered)) : Gen String := do
  let codes ← inOrder (params.map fun (name, value) =>
    match value with
    | some v => do return name ++ " = " ++ (← v.2.expr)
    | none => return name)
  return commaSeparated codes

/-- The value of a style property: numbers are pixels and strings are written as they are. -/
def styleValue : Option Lowered → Gen String
  | none => throw .missingExpression
  | some n =>
    match styleText? n.1 with
    | some text => return text
    | none => n.2.expr

/-- Adds a style rule. -/
def style (name : Option String) (properties : List (String × Option Lowered)) : Gen Unit := do
  let name := match name with
    | some n => if n.isEmpty then "default" else n
    | none => "default"
  let cls := "lumina-" ++ name
  modify fun g => { g with styles := Dict.set name cls g.styles }
  let codes ← inOrder (properties.map fun (key, value) => do
    return "  " ++ kebab key ++ ": " ++ (← styleValue value) ++ ";")
  modify fun g =>
    { g with css := g.css ++ ["." ++ cls ++ " " ++ braced ("\n" ++ Text.unlines codes ++ "\n")] }

/-! ### Expressions -/

def assignment (target value : Lowered) : Gen String := do
  let code ← value.2.expr
  match bareName? target.1 with
  | some name =>
    if (← get).stateNames.contains name then return "__state." ++ name ++ " = " ++ code
    else return name ++ " = " ++ code
  | none => return (← target.2.expr) ++ " = " ++ code

/-- An object literal is kept apart from a block by parentheses. -/
def arrowFunction (params : List (String × Option Lowered)) (body : Body Lowered) : Gen String := do
  let head ← parameters params
  let code ← rebinding (params.map (·.1)) <|
    match body with
    | .block statements => block statements
    | .value n => operand isObject n
  return "(" ++ head ++ ") => " ++ code

/-- The arguments of a call. A component takes one object: a name is its entry of that name, and all
else is spread into it. -/
def callArguments (isComponent : Bool) (arguments : List Lowered) : Gen String := do
  if isComponent then
    let codes ← inOrder (arguments.map fun a =>
      match bareName? a.1 with
      | some name => return name
      | none => do return "..." ++ (← a.2.expr))
    return braced (commaSeparated codes)
  else return commaSeparated (← inOrder (arguments.map (·.2.expr)))

def call (callee : Lowered) (arguments : List Lowered) : Gen String := do
  let head ← operand isLooseCallee callee
  let components := (← get).components
  let isComponent := (bareName? callee.1).any components.contains
  return head ++ "(" ++ (← callArguments isComponent arguments) ++ ")"

def member (obj : Lowered) (property : String) (computed : Bool) (index : Option Lowered) :
    Gen String := do
  let code ← operand isLooseObject obj
  if computed then return code ++ "[" ++ (← required index) ++ "]"
  else return code ++ "." ++ property

def objectLiteral (properties : List (String × Option Lowered)) : Gen String := do
  let codes ← inOrder (properties.map fun (key, value) => do
    return objectKey key ++ ": " ++ (← required value))
  return braced (commaSeparated codes)

def template (parts : List (Part Lowered)) : Gen String := do
  let codes ← inOrder (parts.map fun
    | .text s => return breakClosings s
    | .hole n => do return "$" ++ braced (← n.2.expr))
  return "\x60" ++ String.join codes ++ "\x60"

def instanceCode (name : String) (props : List (String × Option Lowered)) : Gen String := do
  let codes ← inOrder (props.map fun (prop, value) => do
    let key := if prop.startsWith "@" then String.ofList (prop.toList.drop 1) else prop
    let code ← match value with
      | some v => v.2.expr
      | none => pure "true"
    return objectKey key ++ ": " ++ code)
  return name ++ "(" ++ braced (commaSeparated codes) ++ ")"

/-! ### Markup -/

/-- The lines that set one attribute of the element in a variable. -/
def attributeCode (var name : String) (value : Option Lowered) : Gen String := do
  if name.startsWith "@" then
    let event := String.ofList (name.toList.drop 1)
    let handler ← match value with
      | some v => v.2.expr
      | none => pure ("function() " ++ braced "")
    return var ++ ".addEventListener('" ++ event ++ "', function(e) " ++
      braced (" (" ++ handler ++ ")(e); __render(); ") ++ ");"
  else
    match value with
    | none => return var ++ ".setAttribute('" ++ name ++ "', '');"
    | some v =>
      let code ← v.2.expr
      if name == "class" then return var ++ ".className = " ++ code ++ ";"
      else if name == "style" && isObject v.1 then
        return "Object.assign(" ++ var ++ ".style, " ++ code ++ ");"
      else return var ++ ".setAttribute('" ++ name ++ "', " ++ code ++ ");"

def childLines (parent : String) (children : List Lowered) : Gen (List String) := do
  return (← inOrder (children.map (·.2.child parent))).flatten

def nestedLines (parent : String) (children : List Lowered) : Gen (List String) := do
  return (← childLines parent children).map ("  " ++ ·)

def elementLines (tag : String) (attributes : List (String × Option Lowered))
    (children : List Lowered) (parent : String) : Gen (List String) := do
  let var ← newElement
  let codes ← inOrder (attributes.map fun (name, value) => attributeCode var name value)
  let inner ← childLines var children
  return ["const " ++ var ++ " = document.createElement('" ++ tag ++ "');"] ++ codes ++ inner ++
    [parent ++ ".appendChild(" ++ var ++ ");"]

def elementExpr (lines : String → Gen (List String)) : Gen String := do
  let inner ← lines "__root"
  let code := Text.unlines (["const __root = document.createDocumentFragment();"] ++ inner ++
    ["return __root.firstChild;"])
  return "(() => " ++ braced ("\n" ++ Text.indent 1 code ++ "\n") ++ ")()"

/-- The one conditional that an alternative consists of. -/
def elseIf? : List Lowered → Option Forms
  | [n] => if isIf n.1 then some n.2 else none
  | _ => none

def childConditional (condition : Lowered) (consequent : List Lowered)
    (alternate : Option (List Lowered)) (parent : String) : Gen (List String) := do
  let head := "if (" ++ (← condition.2.expr) ++ ") \x7b"
  let inner ← nestedLines parent consequent
  match alternate with
  | none => return head :: inner ++ ["\x7d"]
  | some others =>
    match elseIf? others with
    | some forms =>
      match ← forms.child parent with
      | first :: rest => return head :: inner ++ ("\x7d else " ++ first) :: rest
      | [] => return head :: inner
    | none =>
      let outer ← nestedLines parent others
      return head :: inner ++ "\x7d else \x7b" :: outer ++ ["\x7d"]

def loopHead (name : String) (iterable : Lowered) : Gen String := do
  return "for (const " ++ name ++ " of " ++ (← iterable.2.expr) ++ ")"

def childLoop (name : String) (iterable : Lowered) (body : List Lowered) (parent : String) :
    Gen (List String) := do
  let head ← loopHead name iterable
  let inner ← rebinding [name] (nestedLines parent body)
  return (head ++ " \x7b") :: inner ++ ["\x7d"]

/-! ### Statements -/

def conditional (condition : Lowered) (consequent : List Lowered)
    (alternate : Option (List Lowered)) : Gen String := do
  let head := "if (" ++ (← condition.2.expr) ++ ") "
  let code := head ++ (← block consequent)
  match alternate with
  | none => return code
  | some others =>
    match elseIf? others with
    | some forms => return code ++ " else " ++ (← forms.stmt)
    | none => return code ++ " else " ++ (← block others)

def forLoop (name : String) (iterable : Lowered) (body : List Lowered) : Gen String := do
  let head ← loopHead name iterable
  return head ++ " " ++ (← rebinding [name] (block body))

def function (name : String) (params : List (String × Option Lowered)) (body : List Lowered) :
    Gen String :=
  rebinding (params.map (·.1)) do
    let head ← parameters params
    return "function " ++ name ++ "(" ++ head ++ ") " ++ (← block body)

/-- An effect is a function that runs once. -/
def effect (body : List Lowered) : Gen String := do
  return "(function() " ++ (← block body) ++ ")();"

def publishedObject : String := "globalThis.__lumina_exports"

def importCode (specifiers : List String) : Gen String :=
  return if specifiers.isEmpty then ""
    else "const " ++ braced (" " ++ commaSeparated specifiers ++ " ") ++ " = (" ++
      publishedObject ++ " || " ++ braced "" ++ ");"

/-- Adds names to the published ones; none is added twice. -/
def publish (names : List String) : Gen Unit :=
  modify fun g => { g with
    published := names.foldl (fun ns n => if ns.contains n then ns else ns ++ [n]) g.published }

def exportCode (specifiers : List String) (declaration : Option Lowered) : Gen String := do
  publish specifiers
  match declaration with
  | none => return ""
  | some n => n.2.stmt

/-! ### Components -/

/-- State of a component: setting it renders the component again. -/
def stateCell (name : String) (value : Lowered) : Gen String := do
  return Text.unlines [
    "let " ++ name ++ " = " ++ (← value.2.expr) ++ ";",
    "Object.defineProperty(__state, '" ++ name ++ "', \x7b",
    "  get() " ++ braced (" return " ++ name ++ "; ") ++ ",",
    "  set(v) " ++ braced (" " ++ name ++ " = v; __render(); "),
    "\x7d);"]

/-- What a node is in the body of a component. -/
inductive Role where
  | state (name : String)
  | effect
  | style
  | markup
  | other

def roleOf : Node → Role
  | .state _ name _ _ => .state name
  | .effect .. => .effect
  | .style .. => .style
  | .element .. | .use .. => .markup
  | _ => .other

/-- What the body of a component is sorted into. -/
structure Sections where
  states : List String := []
  effects : List String := []
  body : List String := []
  root : Option Forms := none

/-- Takes in the next node of a component's body. Only the first markup is its root. -/
def sortNode (component : String) (s : Sections) (n : Lowered) : Gen Sections := do
  match roleOf n.1 with
  | .state _ => return { s with states := s.states ++ [← n.2.cell] }
  | .effect => return { s with effects := s.effects ++ [← n.2.stmt] }
  | .style =>
    let _ ← n.2.stmt
    return s
  | .markup =>
    if s.root.isNone then return { s with root := some n.2 }
    else
      let place := (n.1.place.map Place.text).getD "None"
      modify fun g => { g with
        remarks := g.remarks ++ [s!"component {component}: ignoring extra UI root at {place}"] }
      return s
  | .other => return { s with body := s.body ++ [← n.2.stmt] }

def sortNodes (component : String) : Sections → List Lowered → Gen Sections
  | s, [] => return s
  | s, n :: ns => do sortNodes component (← sortNode component s n) ns

def Sections.rootLines (s : Sections) : Gen (List String) :=
  match s.root with
  | some forms => forms.child "__fragment"
  | none => return []

def propDefault (name : String) (value : Lowered) : Gen String := do
  return name ++ " = " ++ name ++ " !== undefined ? " ++ name ++ " : " ++ (← value.2.expr) ++ ";"

/-- The variables of the props, then their default values, if there are props. -/
def propBindings (params : List (String × Option Lowered)) : Gen (List String) := do
  let plain := params.map fun p => "let " ++ p.1 ++ " = props." ++ p.1 ++ ";"
  let defaults ← inOrder (params.filterMap fun p => p.2.map (propDefault p.1))
  return if plain.isEmpty then [] else [Text.unlines (plain ++ defaults)]

/-- The name of the state that a node of a component's body declares. -/
def stateName? (n : Node) : Option String :=
  match roleOf n with
  | .state name => some name
  | _ => none

/-- The names of a component's state. -/
def stateNamesOf (body : List Lowered) : List String := body.filterMap fun n => stateName? n.1

/-- The body of the function that renders a component. -/
def renderLines (s : Sections) (rootLines : List String) : List String :=
  ["__el.innerHTML = '';", "const __fragment = document.createDocumentFragment();"] ++
    rootLines ++
    ["__el.appendChild(__fragment);", "if (!__mounted) \x7b", "  __mounted = true;"] ++
    s.effects.map (Text.indent 1) ++ ["\x7d"]

def componentText (name : String) (s : Sections) (rootLines bindings : List String) : String :=
  let intro := Text.unlines [
    "const __el = document.createElement('div');",
    "__el.setAttribute('data-component', '" ++ name ++ "');",
    "const __state = " ++ braced "" ++ ";",
    "let __mounted = false;"]
  let sections := [intro] ++ bindings ++ s.states ++ s.body ++
    ["function __render() " ++
      braced ("\n" ++ Text.indent 1 (Text.unlines (renderLines s rootLines)) ++ "\n"),
      "__render();\nreturn __el;"]
  "function " ++ name ++ "(props) " ++
    braced ("\n" ++ Text.indent 1 (String.intercalate "\n\n" sections) ++ "\n")

/-- A component becomes a function that builds its element and renders its markup into it. -/
def componentCode (name : String) (params : List (String × Option Lowered)) (body : List Lowered) :
    Gen String := do
  let s ← sortNodes name {} body
  let rootLines ← s.rootLines
  return componentText name s rootLines (← propBindings params)

/-- Within a component its own state names are known and no others. -/
def component (name : String) (params : List (String × Option Lowered)) (body : List Lowered) :
    Gen String :=
  withStateNames (fun _ => stateNamesOf body) (componentCode name params body)

/-! ### All forms of a node -/

section Fallback

variable (unknown : Node → Gen String)

mutual

/-- The forms of a node, with any code for a node in a place where it has no meaning. -/
def lowerWith : Node → Forms
  | .number _ value => .ofExpr (return numericText value)
  | .string _ value => .ofExpr (return stringLiteral value)
  | .boolean _ value => .ofExpr (return if value then "true" else "false")
  | .null _ => .ofExpr (return "null")
  | .identifier _ name => .ofExpr (return name)
  | .binary _ op left right => .ofExpr do
    let l ← operand isLooseOperand (left, lowerWith left)
    let r ← operand isLooseOperand (right, lowerWith right)
    return "(" ++ l ++ " " ++ op ++ " " ++ r ++ ")"
  | .unary _ op n => .ofExpr do
    return op ++ (← operand isLooseSigned (n, lowerWith n))
  | .call _ callee arguments => .ofExpr (call (callee, lowerWith callee) (lowerListWith arguments))
  | .member _ obj property computed index =>
    .ofExpr (member (obj, lowerWith obj) property computed (lowerOptionWith index))
  | .assign _ target value =>
    .ofExpr (assignment (target, lowerWith target) (value, lowerWith value))
  | .arrow _ params (.block body) =>
    .ofExpr (arrowFunction (lowerParamsWith params) (.block (lowerListWith body)))
  | .arrow _ params (.value body) =>
    .ofExpr (arrowFunction (lowerParamsWith params) (.value (body, lowerWith body)))
  | .array _ elements => .ofExpr do
    return "[" ++ commaSeparated (← inOrder ((lowerListWith elements).map (·.2.expr))) ++ "]"
  | .object _ properties => .ofExpr (objectLiteral (lowerEntriesWith properties))
  | .conditional _ condition consequent alternate => .ofExpr do
    let c ← operand isLooseOperand (condition, lowerWith condition)
    let yes ← (lowerWith consequent).expr
    let no ← (lowerWith alternate).expr
    return "(" ++ c ++ " ? " ++ yes ++ " : " ++ no ++ ")"
  | .pipe _ left right => .ofExpr do
    let callee ← operand isLooseCallee (right, lowerWith right)
    return callee ++ "(" ++ (← (lowerWith left).expr) ++ ")"
  | .template _ parts => .ofExpr (template (lowerPartsWith parts))
  | .use _ name props _ _ =>
    let code := instanceCode name (lowerEntriesWith props)
    { Forms.ofExpr code with
      child := fun parent => do return [parent ++ ".appendChild(" ++ (← code) ++ ");"] }
  | .element _ tag attributes children _ =>
    let lines := elementLines tag (lowerEntriesWith attributes) (lowerListWith children)
    { Forms.ofExpr (elementExpr lines) with child := lines }
  | n@(.text _ value) => .ofChild (unknown n) fun parent =>
    return [parent ++ ".appendChild(document.createTextNode(" ++ stringLiteral value ++ "));"]
  | n@(.interpolation _ value) => .ofChild (unknown n) fun parent => do
    return [parent ++ ".appendChild(document.createTextNode(String(" ++
      (← (lowerWith value).expr) ++ ")));"]
  | n@(.ifElse _ condition consequent alternate) =>
    let c := (condition, lowerWith condition)
    let yes := lowerListWith consequent
    let no := lowerOptionListWith alternate
    { Forms.ofStmt (unknown n) (conditional c yes no) with child := childConditional c yes no }
  | n@(.forEach _ name iterable body) =>
    let i := (iterable, lowerWith iterable)
    let inner := lowerListWith body
    { Forms.ofStmt (unknown n) (forLoop name i inner) with child := childLoop name i inner }
  | n@(.returning _ value) => .ofStmt (unknown n) <|
    match lowerOptionWith value with
    | none => return "return;"
    | some v => do return "return " ++ (← v.2.expr) ++ ";"
  | n@(.expression _ value) => .ofStmt (unknown n) do return (← (lowerWith value).expr) ++ ";"
  | n@(.block _ body) => .ofStmt (unknown n) (block (lowerListWith body))
  | n@(.component _ name params body) =>
    .ofStmt (unknown n) (component name (lowerParamsWith params) (lowerListWith body))
  | n@(.function _ name params _ body) =>
    .ofStmt (unknown n) (function name (lowerParamsWith params) (lowerListWith body))
  | n@(.binding _ name mutable _ value) => .ofStmt (unknown n) do
    let word := if mutable then "let " else "const "
    return word ++ name ++ " = " ++ (← (lowerWith value).expr) ++ ";"
  | n@(.state _ name _ value) =>
    let v := (value, lowerWith value)
    { Forms.ofStmt (unknown n) (do return "let " ++ name ++ " = " ++ (← v.2.expr) ++ ";") with
      cell := stateCell name v }
  | n@(.effect _ _ body) => .ofStmt (unknown n) (effect (lowerListWith body))
  | n@(.style _ name properties) => .ofStmt (unknown n) do
    style name (lowerEntriesWith properties)
    return ""
  | n@(.imports _ specifiers _) => .ofStmt (unknown n) (importCode specifiers)
  | n@(.exports _ specifiers declaration) =>
    .ofStmt (unknown n) (exportCode specifiers (lowerOptionWith declaration))
  | n@(.bare _ _) => .ofExpr (unknown n)
  | n@(.program _ _ _) => .ofExpr (unknown n)

def lowerListWith : List Node → List Lowered
  | [] => []
  | n :: ns => (n, lowerWith n) :: lowerListWith ns

def lowerOptionWith : Option Node → Option Lowered
  | none => none
  | some n => some (n, lowerWith n)

def lowerOptionListWith : Option (List Node) → Option (List Lowered)
  | none => none
  | some ns => some (lowerListWith ns)

def lowerEntriesWith : List (Entry Node) → List (String × Option Lowered)
  | [] => []
  | ⟨name, value⟩ :: es => (name, lowerOptionWith value) :: lowerEntriesWith es

def lowerParamsWith : List (Param Node) → List (String × Option Lowered)
  | [] => []
  | ⟨name, _, value⟩ :: ps => (name, lowerOptionWith value) :: lowerParamsWith ps

def lowerPartsWith : List (Part Node) → List (Part Lowered)
  | [] => []
  | .text s :: ps => .text s :: lowerPartsWith ps
  | .hole e :: ps => .hole (e, lowerWith e) :: lowerPartsWith ps

end

end Fallback

abbrev lower (n : Node) : Forms := lowerWith Forms.unknown n

abbrev lowerList (ns : List Node) : List Lowered := lowerListWith Forms.unknown ns

abbrev lowerOption (n : Option Node) : Option Lowered := lowerOptionWith Forms.unknown n

abbrev lowerOptionList (ns : Option (List Node)) : Option (List Lowered) :=
  lowerOptionListWith Forms.unknown ns

abbrev lowerEntries (es : List (Entry Node)) : List (String × Option Lowered) :=
  lowerEntriesWith Forms.unknown es

abbrev lowerParams (ps : List (Param Node)) : List (String × Option Lowered) :=
  lowerParamsWith Forms.unknown ps

abbrev lowerParts (ps : List (Part Node)) : List (Part Lowered) :=
  lowerPartsWith Forms.unknown ps

end UiScript.Script
