import UiScript.Eval.Evaluate
import UiScript.Text.Markup

/-!
# Static rendering

A component is rendered to markup by evaluating its first markup with the initial values of its
state. Event handlers are left out, and every text is escaped. A component that uses itself,
directly or through others, is refused.
-/

namespace UiScript

/-- Why a component cannot be rendered. -/
inductive RenderError where
  | notFound (component : String)
  | recursive (component : String)
  | number (error : NumberError)
  deriving DecidableEq, Inhabited

def RenderError.message : RenderError → String
  | .notFound component => "Component not found: " ++ component
  | .recursive component => "Recursive component: " ++ component
  | .number e => e.message

namespace Render

def eval (n : Node) (scope : Dict Value) : Except RenderError Value :=
  (n.evaluate scope).mapError .number

def escapedText (v : Value) : Except RenderError String :=
  (Text.escaped <$> v.asText).mapError .number

/-- The entries of a dictionary as style rules. -/
def styleTexts : List (String × Value) → Except RenderError (List String)
  | [] => .ok []
  | (key, v) :: rest => do
    let text ← v.asText.mapError .number
    return (Script.kebab key ++ ":" ++ text) :: (← styleTexts rest)

/-- Starts with the mark of an event handler. -/
def isEvent (name : String) : Bool := name.startsWith "@"

def attributeText (name : String) (v : Value) : Except RenderError String := do
  let text ← match v with
    | .dict entries =>
      if name == "style" then
        Text.escaped <$> String.intercalate ";" <$> styleTexts entries
      else escapedText v
    | v => escapedText v
  return name ++ "=\"" ++ text ++ "\""

def attributeTexts (scope : Dict Value) : List (Entry Node) → Except RenderError (List String)
  | [] => .ok []
  | ⟨name, value⟩ :: es =>
    if isEvent name then attributeTexts scope es
    else
      match value with
      | none => do return name :: (← attributeTexts scope es)
      | some n => do
        let v ← eval n scope
        let text ← attributeText name v
        return text :: (← attributeTexts scope es)

/-- The props that an instance is given. -/
def propValues (scope : Dict Value) : List (Entry Node) → Except RenderError (List (String × Value))
  | [] => .ok []
  | ⟨_, none⟩ :: es => propValues scope es
  | ⟨name, some n⟩ :: es =>
    if isEvent name then propValues scope es
    else do
      let v ← eval n scope
      return (name, v) :: (← propValues scope es)

section Markup

-- How instances of components are rendered, and with which effects, is left open here.
variable {m : Type → Type} [Monad m] [MonadLiftT (Except RenderError) m]

def joinItems (render : Value → m String) : List Value → m String
  | [] => pure ""
  | v :: vs => do
    let text ← render v
    return text ++ (← joinItems render vs)

mutual

/-- The markup of a node. Instances of components are rendered by the first argument. -/
def markup (use : String → Dict Value → m String) : Node → Dict Value → m String
  | .text _ value, _ => pure (Text.escaped value)
  | .interpolation _ n, scope => do
    let v ← eval n scope
    escapedText v
  | .element _ tag attributes children selfClosing, scope => do
    let texts ← attributeTexts scope attributes
    let head := "<" ++ tag ++ String.join (texts.map (" " ++ ·))
    if selfClosing then return head ++ " />"
    else
      let inner ← markupList use children scope
      return head ++ ">" ++ inner ++ "</" ++ tag ++ ">"
  | .use _ name props _ _, scope => do
    let values ← propValues scope props
    use name (Dict.ofEntries values)
  | .ifElse _ condition consequent alternate, scope => do
    let c ← eval condition scope
    if c.isTruthy then markupList use consequent scope else markupOption use alternate scope
  | .forEach _ name iterable body, scope => do
    let v ← eval iterable scope
    match v with
    | .list items => joinItems (fun v => markupList use body (Dict.set name v scope)) items
    | _ => return ""
  | .bare .., _ | .identifier .., _ | .number .., _ | .string .., _ | .boolean .., _ | .null .., _
  | .template .., _ | .binary .., _ | .unary .., _ | .call .., _ | .member .., _ | .assign .., _
  | .arrow .., _ | .array .., _ | .object .., _ | .conditional .., _ | .pipe .., _
  | .returning .., _ | .expression .., _ | .block .., _ | .component .., _ | .function .., _
  | .binding .., _ | .state .., _ | .effect .., _ | .style .., _ | .imports .., _ | .exports .., _
  | .program .., _ => pure ""

def markupList (use : String → Dict Value → m String) : List Node → Dict Value → m String
  | [], _ => pure ""
  | n :: ns, scope => do
    let text ← markup use n scope
    return text ++ (← markupList use ns scope)

def markupOption (use : String → Dict Value → m String) :
    Option (List Node) → Dict Value → m String
  | none, _ => pure ""
  | some ns, scope => markupList use ns scope

end

end Markup

structure Component where
  params : List (Param Node)
  body : List Node
  deriving Inhabited

/-- The component that a top level node declares, with its name. -/
def component? : Node → Option (String × Component)
  | .component _ name params body => some (name, ⟨params, body⟩)
  | .exports _ _ (some (.component _ name params body)) => some (name, ⟨params, body⟩)
  | _ => none

/-- The components of a program; of one name the first counts. -/
def components (program : Program) : List (String × Component) :=
  program.body.filterMap component?

def withDefaults : List (Param Node) → Dict Value → Except RenderError (Dict Value)
  | [], scope => .ok scope
  | ⟨name, _, default⟩ :: ps, scope =>
    match Dict.get? scope name, default with
    | none, some n => do withDefaults ps (Dict.set name (← eval n scope) scope)
    | _, _ => withDefaults ps scope

/-- Adds the initial values of the state and the variables. -/
def withBindings : List Node → Dict Value → Except RenderError (Dict Value)
  | [], scope => .ok scope
  | .state _ name _ value :: ns, scope | .binding _ name _ _ value :: ns, scope => do
    withBindings ns (Dict.set name (← eval value scope) scope)
  | _ :: ns, scope => withBindings ns scope

def isRoot : Node → Bool
  | .element .. | .use .. => true
  | _ => false

def instanceMarkup {m : Type → Type} [Monad m] [MonadLiftT (Except RenderError) m]
    (use : String → Dict Value → m String) (c : Component) (props : Dict Value) : m String := do
  let scope ← withDefaults c.params props
  let scope ← withBindings c.body scope
  match c.body.find? isRoot with
  | some root => markup use root scope
  | none => return ""

/-- Renders a component inside those that are being rendered. The first number bounds how deep
components can still be nested; as the active ones differ, the number of components is enough. -/
def render (all : List (String × Component)) :
    Nat → List String → String → Dict Value → Except RenderError String
  | depth, active, name, props =>
    match List.lookup name all with
    | none => .error (.notFound name)
    | some c =>
      if active.contains name then .error (.recursive name)
      else
        match depth with
        | 0 => .error (.recursive name)
        | depth + 1 => instanceMarkup (render all depth (name :: active)) c props

/-! ### Keeping what is being rendered -/

/-- How a state keeps the names of the components that are being rendered, the innermost first. -/
structure Frames (σ : Type) where
  names : σ → List String
  enter : String → σ → σ
  leave : σ → σ

/-- A stack of names, and nothing else. -/
def Frames.stack : Frames (List String) where
  names := id
  enter := List.cons
  leave := List.tail

abbrev Rendering (σ : Type) := ExceptT RenderError (StateM σ)

/-- Runs an action inside a component, which is left however the action ends. -/
def Frames.within {σ α : Type} (frames : Frames σ) (name : String) (action : Rendering σ α) :
    Rendering σ α := do
  modify (frames.enter name)
  try action finally modify frames.leave

/-- Renders a component inside those whose names the state keeps. The number is the same bound as
above. -/
def renderWith {σ : Type} (frames : Frames σ) (all : List (String × Component)) :
    Nat → String → Dict Value → Rendering σ String
  | depth, name, props => do
    match List.lookup name all with
    | none => throw (.notFound name)
    | some c =>
      if (frames.names (← get)).contains name then throw (.recursive name)
      else
        match depth with
        | 0 => throw (.recursive name)
        | depth + 1 => frames.within name (instanceMarkup (renderWith frames all depth) c props)

end Render

structure Renderer where
  components : List (String × Render.Component)
  /-- The components that are being rendered, the innermost first. -/
  rendering : List String := []
  deriving Inhabited

def Program.renderer (program : Program) : Renderer :=
  { components := Render.components program }

/-- The markup of a component with the given props, or why there is none, and the renderer after
it. -/
def Renderer.render (r : Renderer) (component : String) (props : Dict Value) :
    Except RenderError String × Renderer :=
  let bound := r.components.length
  let (result, rendering) :=
    (Render.renderWith .stack r.components bound component props).run.run r.rendering
  (result, { r with rendering })

/-- Renders some components with their props in order. Each result comes with the renderer after
it. -/
def Renderer.renderAll : Renderer → List (String × Dict Value) →
    List (Except RenderError String × Renderer)
  | _, [] => []
  | r, (component, props) :: calls =>
    let step := r.render component props
    step :: step.2.renderAll calls

def Program.render (program : Program) (component : String) (props : Dict Value) :
    Except RenderError String :=
  let all := Render.components program
  Render.render all all.length [] component props

end UiScript
