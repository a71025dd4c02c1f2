import UiScript.Syntax.Basic
import UiScript.Syntax.Fault

/-!
# Reading tokens

A reader walks over tokens of which the last one is never passed. Loops are counted by the tokens
that are left: a loop that goes on without using them up never ends, and is reported as such.
-/

namespace UiScript.Syntax

open Token (Kind)

/-- Where reading stands. -/
structure Cursor where
  current : Token
  rest : List Token
  file : String
  /-- How many tokens each template fragment read so far has, the latest first. -/
  fragments : List Nat := []

/-- A reader of tokens. A failure keeps the cursor. -/
abbrev Parse := EStateM SyntaxFault Cursor

def peek : Parse Kind := return (← get).current.kind

def here : Parse Place := return (← get).current.place

/-- The token after the current one. -/
def peekNext : Parse (Option Token) := return (← get).rest.head?

/-- Returns the current token and moves on, unless it is the last one. -/
def advance : Parse Token := do
  let c ← get
  match c.rest with
  | [] => pure ()
  | t :: ts => set { c with current := t, rest := ts }
  return c.current

/-- The current token is of a kind. -/
def check (kind : Kind) : Parse Bool := return (← peek) == kind

/-- Moves over a token of a kind, if the current one is. -/
def accept (kind : Kind) : Parse Bool := do
  if ← check kind then
    let _ ← advance
    return true
  else return false

/-- Moves over a token that must be of a kind. -/
def expect (kind : Kind) : Parse Token := do
  let t := (← get).current
  if t.kind == kind then advance else throw (.expected kind t)

/-- Moves over a symbol. -/
def expectSymbol (mark : Symbol) : Parse Unit := do
  let _ ← expect (.symbol mark)

/-- Moves over an identifier. -/
def expectIdentifier : Parse String := return (← expect .identifier).value

/-- Moves over a name, which may be a keyword. -/
def expectName : Parse String := do
  let t := (← get).current
  match t.kind with
  | .identifier | .keyword _ => return (← advance).value
  | _ => throw (.expectedName t)

def atEnd : Parse Bool := check .endOfFile

/-- A token that separates statements. -/
def isSeparator : Kind → Bool
  | .newline | .symbol .semicolon => true
  | _ => false

/-- The first token that separates no statements, or the last token, and what follows it. -/
def dropSeparators : Token → List Token → Token × List Token
  | t, [] => (t, [])
  | t, u :: us => if isSeparator t.kind then dropSeparators u us else (t, u :: us)

/-- Moves over line ends and semicolons. -/
def skipNewlines : Parse Unit :=
  modify fun c =>
    let (current, rest) := dropSeparators c.current c.rest
    { c with current, rest }

/-- Moves over one line end or one semicolon. -/
def skipTerminator : Parse Unit := do
  unless ← accept .newline do
    let _ ← accept (.symbol .semicolon)

/-! ### Loops -/

/-- Repeats a step that carries a state until it stops with a result, at most so many times. -/
def loop {α β : Type} (step : α → Parse (α ⊕ β)) : Nat → α → Parse β
  | 0, _ => throw .endless
  | n + 1, a => do
    match ← step a with
    | .inl a => loop step n a
    | .inr b => return b

/-- Repeats a step as often as there may be tokens for it. -/
def iterate {α β : Type} (step : α → Parse (α ⊕ β)) (a : α) : Parse β := do
  loop step ((← get).rest.length + 2) a

/-- One round of `collectUntil`. -/
def untilStep {α : Type} (done : Parse Bool) (item : Parse α) (acc : List α) :
    Parse (List α ⊕ List α) := do
  if ← done then return .inr acc.reverse
  else
    let a ← item
    return .inl (a :: acc)

def collectUntil {α : Type} (done : Parse Bool) (item : Parse α) : Parse (List α) :=
  iterate (untilStep done item) []

/-- One round of `collectSeparated`. -/
def separatedStep {α : Type} (done : Parse Bool) (item : Parse α) (between : Parse Unit)
    (acc : List α) : Parse (List α ⊕ List α) := do
  if ← done then return .inr acc.reverse
  else
    let a ← item
    if ← accept (.symbol .comma) then
      between
      return .inl (a :: acc)
    else return .inr (a :: acc).reverse

/-- Collects items with commas between them until `done` holds in front of one; the last comma may
stay. An item without a comma behind it is the last one. `between` follows each comma. -/
def collectSeparated {α : Type} (done : Parse Bool) (item : Parse α) (between : Parse Unit) :
    Parse (List α) :=
  iterate (separatedStep done item between) []

/-- A further operator with its right operand. -/
def operatorStep (isOperator : Parse Bool) (operand : Parse Node)
    (join : Place → String → Node → Node → Node) (left : Node) : Parse (Node ⊕ Node) := do
  if ← isOperator then
    let place ← here
    let op ← advance
    let right ← operand
    return .inl (join place op.value left right)
  else return .inr left

def leftAssociative (isOperator : Parse Bool) (operand : Parse Node)
    (join : Place → String → Node → Node → Node) : Parse Node := do
  iterate (operatorStep isOperator operand join) (← operand)

def withNewlines {α : Type} (item : Parse α) : Parse α := do
  let a ← item
  skipNewlines
  return a

def withComma {α : Type} (item : Parse α) : Parse α := do
  let a ← item
  let _ ← accept (.symbol .comma)
  skipNewlines
  return a

end UiScript.Syntax
