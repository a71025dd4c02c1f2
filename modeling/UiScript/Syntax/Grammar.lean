import UiScript.Syntax.Cursor
import UiScript.Syntax.Template

/-!
# The grammar

Each production is written over the productions one level down: whatever it reads after its first
token goes through `Rules`. The productions of a level that need no token in between call each
other directly.
-/

namespace UiScript.Syntax

open Token (Kind)

/-- The productions that others use after a token. -/
structure Rules where
  expression : Parse Node
  assignment : Parse Node
  unary : Parse Node
  statement : Parse Node
  element : Parse Node
  ifElse : Parse Node
  typeExpr : Parse TypeExpr

variable (r : Rules)

/-! ### Types and parameters -/

/-- A further argument of a type. -/
def typeArgumentStep (acc : List TypeExpr) : Parse (List TypeExpr ⊕ List TypeExpr) := do
  if ← accept (.symbol .comma) then
    let a ← r.typeExpr
    return .inl (a :: acc)
  else return .inr acc.reverse

/-- A written type: a name, and arguments between angle brackets. -/
def typeExpr : Parse TypeExpr := do
  let name ← expectIdentifier
  if ← accept (.symbol .lt) then
    let first ← r.typeExpr
    let arguments ← iterate (typeArgumentStep r) [first]
    expectSymbol .gt
    return .mk name arguments
  else return .mk name []

def optionalType : Parse (Option TypeExpr) := do
  if ← accept (.symbol .colon) then return some (← r.typeExpr) else return none

def param : Parse (Param Node) := do
  let name ← expectIdentifier
  let written ← optionalType r
  let value ← if ← accept (.symbol .assign) then some <$> r.expression else pure none
  return ⟨name, written, value⟩

/-- Parameters up to the closing parenthesis. -/
def params : Parse (List (Param Node)) := do
  skipNewlines
  collectSeparated (check (.symbol .rightParen)) (param r) skipNewlines

/-! ### Blocks -/

/-- Statements up to a closing brace or the end. -/
def blockBody : Parse (List Node) := do
  skipNewlines
  collectUntil (do return (← check (.symbol .rightBrace)) || (← atEnd)) (withNewlines r.statement)

def block : Parse (List Node) := do
  expectSymbol .leftBrace
  let body ← blockBody r
  expectSymbol .rightBrace
  return body

/-- What follows the first block of a conditional. -/
def ifElseTail (place : Place) (condition : Node) (consequent : List Node) :
    Parse Node := do
  skipNewlines
  if ← accept (.keyword .elseWord) then
    if ← check (.keyword .ifWord) then
      return .ifElse place condition consequent (some [← r.ifElse])
    else return .ifElse place condition consequent (some (← block r))
  else return .ifElse place condition consequent none

def ifElse : Parse Node := do
  let place ← here
  let _ ← expect (.keyword .ifWord)
  let condition ← r.expression
  let consequent ← block r
  ifElseTail r place condition consequent

def forEach : Parse Node := do
  let place ← here
  let _ ← expect (.keyword .forWord)
  let name ← expectIdentifier
  let _ ← expect (.keyword .inWord)
  let iterable ← r.expression
  let body ← block r
  return .forEach place name iterable body

/-! ### Markup -/

def isAsciiUpper (c : Char) : Bool := 'A' ≤ c && c ≤ 'Z'

def isAsciiLetter (c : Char) : Bool := isAsciiUpper c || ('a' ≤ c && c ≤ 'z')

def isTagName (kind : Kind) (value : String) : Bool :=
  kind == .identifier && value.toList.head?.any isAsciiLetter

/-- An angle bracket opens an element if an identifier that starts with a letter follows. -/
def atElement : Parse Bool := do
  let c ← get
  return c.current.kind == .symbol .lt && c.rest.head?.any fun t => isTagName t.kind t.value

def atClosingTag : Parse Bool := do
  let c ← get
  return c.current.kind == .symbol .lt && c.rest.head?.any (·.kind == .symbol .slash)

/-- A further part of the name of an attribute. -/
def hyphenStep (name : String) : Parse (String ⊕ String) := do
  if ← accept (.symbol .minus) then return .inl (name ++ "-" ++ (← expectName))
  else return .inr name

/-- The name of an attribute: an event, or names joined by hyphens. -/
def attributeName : Parse String := do
  if ← accept (.symbol .atSign) then return "@" ++ (← expectName)
  else iterate hyphenStep (← expectName)

/-- The value of an attribute: an expression in braces, a string, or an expression that stops short
of comparisons, so that the bracket that ends the tag stays. -/
def attributeValue : Parse Node := do
  if ← accept (.symbol .leftBrace) then
    let value ← r.expression
    expectSymbol .rightBrace
    return value
  else if ← check .string then
    let t ← advance
    return .string t.place t.value
  else r.unary

def tagAttribute : Parse (Entry Node) := do
  let name ← attributeName
  let value ← if ← accept (.symbol .assign) then some <$> attributeValue r else pure none
  return ⟨name, value⟩

/-- A token that continues a run of bare text. -/
def isTextToken : Kind → Bool
  | .identifier | .number => true
  | .symbol .dot | .symbol .comma | .symbol .colon | .symbol .not | .symbol .question => true
  | _ => false

/-- Bare text: the values of its tokens with a blank between them. -/
def textRun : Parse Node := do
  let first ← advance
  let words ← collectUntil (do return !isTextToken (← peek)) do return (← advance).value
  return .text first.place (String.intercalate " " (first.value :: words))

/-- A conditional, a loop or an expression. -/
def bracedItem (place : Place) : Parse Node := do
  match ← peek with
  | .keyword .ifWord => ifElse r
  | .keyword .forWord => forEach r
  | _ => Node.interpolation place <$> r.expression

def bracedChild : Parse Node := do
  let place ← here
  let _ ← advance
  skipNewlines
  let child ← bracedItem r place
  skipNewlines
  expectSymbol .rightBrace
  return child

/-- A further child. -/
def childStep (acc : List Node) : Parse (List Node ⊕ List Node) := do
  skipNewlines
  if ← atClosingTag then return .inr acc.reverse
  else if ← check (.symbol .leftBrace) then return .inl ((← bracedChild r) :: acc)
  else if ← atElement then return .inl ((← r.element) :: acc)
  else
    match ← peek with
    | .string =>
      let t ← advance
      return .inl (.text t.place t.value :: acc)
    | .identifier | .number => return .inl ((← textRun) :: acc)
    | _ => return .inr acc.reverse

/-- Children up to a closing tag or to a token that no child starts with. -/
def children : Parse (List Node) := iterate (childStep r) []

/-- The node of a tag: a component instance if the tag starts with a capital. An instance has no
bare attributes. -/
def tagNode (place : Place) (tag : String) (attributes : List (Entry Node)) (inner : List Node)
    (selfClosing : Bool) : Node :=
  if tag.toList.head?.any isAsciiUpper then
    .use place tag (attributes.filter (·.value.isSome)) inner selfClosing
  else .element place tag attributes inner selfClosing

def isTagEnd : Kind → Bool
  | .symbol .gt | .symbol .slash | .endOfFile => true
  | _ => false

/-- The children of an element and its closing tag. -/
def elementBody (place : Place) (tag : String) (attributes : List (Entry Node)) :
    Parse Node := do
  let inner ← children r
  expectSymbol .lt
  expectSymbol .slash
  let closing ← expect .identifier
  if closing.value != tag then throw (.closingTag tag closing.value closing.place)
  expectSymbol .gt
  return tagNode place tag attributes inner false

/-- What follows the attributes of an element. -/
def elementTail (place : Place) (tag : String) (attributes : List (Entry Node)) :
    Parse Node := do
  if ← accept (.symbol .slash) then
    expectSymbol .gt
    return tagNode place tag attributes [] true
  else
    expectSymbol .gt
    elementBody r place tag attributes

def element : Parse Node := do
  let place ← here
  expectSymbol .lt
  let tag ← expectIdentifier
  skipNewlines
  let attributes ← collectUntil (do return isTagEnd (← peek)) (withNewlines (tagAttribute r))
  elementTail r place tag attributes

/-! ### Expressions -/

/-- The parenthesis in front closes right before an arrow. -/
def closesBeforeArrow : Nat → List Token → Bool
  | _, [] => false
  | depth, t :: ts =>
    match t.kind with
    | .symbol .leftParen => closesBeforeArrow (depth + 1) ts
    | .symbol .rightParen =>
      if depth ≤ 1 then ts.head?.any (·.kind == .symbol .arrow)
      else closesBeforeArrow (depth - 1) ts
    | .endOfFile => false
    | _ => closesBeforeArrow depth ts

def atArrowFunction : Parse Bool := do
  let c ← get
  return closesBeforeArrow 0 (c.current :: c.rest)

/-- The tokens behind a brace make up an object: a closing brace, or a key and a colon. -/
def opensObject (ts : List Token) : Bool :=
  match ts.dropWhile (·.kind == .newline) with
  | [] => false
  | first :: more =>
    first.kind == .symbol .rightBrace ||
      ((first.kind == .identifier || first.kind == .string) &&
        more.head?.any (·.kind == .symbol .colon))

def atObject : Parse Bool := do return opensObject (← get).rest

def propertyKey : Parse String := do
  if ← check .string then return (← advance).value else expectName

/-- A key, a colon and a value. -/
def property : Parse (Entry Node) := do
  let key ← propertyKey
  expectSymbol .colon
  return ⟨key, some (← r.expression)⟩

def object : Parse Node := do
  let place ← here
  expectSymbol .leftBrace
  skipNewlines
  let properties ← collectUntil (check (.symbol .rightBrace)) (withComma (property r))
  expectSymbol .rightBrace
  return .object place properties

def array : Parse Node := do
  let place ← here
  expectSymbol .leftBracket
  skipNewlines
  let elements ← collectUntil (check (.symbol .rightBracket)) (withComma r.expression)
  expectSymbol .rightBracket
  return .array place elements

def arrowBody : Parse (Body Node) := do
  if (← check (.symbol .leftBrace)) && !(← atObject) then return .block (← block r)
  else return .value (← r.expression)

def arrowFunction : Parse Node := do
  let place ← here
  expectSymbol .leftParen
  let ps ← params r
  expectSymbol .rightParen
  expectSymbol .arrow
  return .arrow place ps (← arrowBody r)

/-- What is read of a template fragment. -/
def fragmentBody : Parse Node := do
  skipNewlines
  withNewlines r.expression

/-- Reads the expression of a template fragment, which is cut into tokens on its own. -/
def embedded (fragment : String) (template : Token) : Parse Node := do
  let outer ← get
  match Token.tokenize fragment outer.file with
  | .error e => throw (.lexical e)
  | .ok [] => throw .noTokens
  | .ok (t :: ts) =>
    set { outer with current := t, rest := ts, fragments := (ts.length + 1) :: outer.fragments }
    let e ← fragmentBody r
    let inner ← get
    if inner.current.kind != .endOfFile then
      throw (.trailing inner.current.value template.place)
    set { outer with fragments := inner.fragments }
    return e

/-- Reads the parts of a template in order. -/
def templateParts (template : Token) : List Segment → Parse (List (Part Node))
  | [] => return []
  | .text literal :: more => do
    return .text (String.ofList literal) :: (← templateParts template more)
  | .hole fragment :: more => do
    let e ← embedded r (String.ofList fragment) template
    return .hole e :: (← templateParts template more)

/-- A string; a template that holds fragments becomes an expression of its own. -/
def stringLiteral : Parse Node := do
  let t ← advance
  if t.template && hasHole t.value.toList then
    let (parts, unclosed) := segments [] t.value.toList
    let parts ← templateParts r t parts
    if unclosed then throw (.unclosedHole t.place)
    return .template t.place parts
  else return .string t.place t.value

def numberLiteral : Parse Node := do
  let t ← advance
  match Numeral.readNumber t.value with
  | .ok n => return .number t.place (.number n)
  | .error e => throw (.numeral e)

/-- A name, or an arrow function of one parameter without parentheses. -/
def nameOrArrow : Parse Node := do
  let t ← advance
  if ← accept (.symbol .arrow) then
    return .arrow t.place [⟨t.value, none, none⟩] (← arrowBody r)
  else return .identifier t.place t.value

def parenthesized : Parse Node := do
  let _ ← advance
  let e ← r.expression
  expectSymbol .rightParen
  return e

def primary : Parse Node := do
  let t := (← get).current
  match t.kind with
  | .symbol .leftParen => if ← atArrowFunction then arrowFunction r else parenthesized r
  | .symbol .leftBracket => array r
  | .symbol .leftBrace => if ← atObject then object r else throw (.unexpected t)
  | .number => numberLiteral
  | .string => stringLiteral r
  | .keyword .trueWord => do
    let _ ← advance
    return .boolean t.place true
  | .keyword .falseWord => do
    let _ ← advance
    return .boolean t.place false
  | .keyword .nullWord => do
    let _ ← advance
    return .null t.place
  | .identifier => nameOrArrow r
  | _ => if ← atElement then element r else throw (.unexpected t)

def arguments : Parse (List Node) := do
  skipNewlines
  let args ← collectSeparated (check (.symbol .rightParen)) r.expression skipNewlines
  expectSymbol .rightParen
  return args

/-- A further call or member access. -/
def accessStep (e : Node) : Parse (Node ⊕ Node) := do
  let place ← here
  match ← peek with
  | .symbol .leftParen =>
    let _ ← advance
    return .inl (.call place e (← arguments r))
  | .symbol .dot =>
    let _ ← advance
    return .inl (.member place e (← expectName) false none)
  | .symbol .leftBracket =>
    let _ ← advance
    let index ← r.expression
    expectSymbol .rightBracket
    return .inl (.member place e "" true (some index))
  | _ => return .inr e

/-- A primary expression followed by calls and member accesses. -/
def access : Parse Node := do iterate (accessStep r) (← primary r)

def isUnaryOperator : Kind → Bool
  | .symbol .not | .symbol .minus => true
  | _ => false

def unary : Parse Node := do
  if isUnaryOperator (← peek) then
    let place ← here
    let op ← advance
    return .unary place op.value (← r.unary)
  else access r

def binaryLevel (isOperator : Parse Bool) (operand : Parse Node) : Parse Node :=
  leftAssociative isOperator operand fun place op left right => .binary place op left right

/-- The current token is one of some symbols. -/
def checkAny (marks : List Symbol) : Parse Bool := do
  match ← peek with
  | .symbol mark => return marks.contains mark
  | _ => return false

def multiplicative : Parse Node :=
  binaryLevel (checkAny [.star, .slash, .percent]) (unary r)

def additive : Parse Node :=
  binaryLevel (checkAny [.plus, .minus]) (multiplicative r)

/-- An angle bracket that opens an element is no operator. -/
def isComparison : Parse Bool := do
  if ← check (.symbol .lt) then return !(← atElement)
  else checkAny [.gt, .lte, .gte]

def comparison : Parse Node := binaryLevel isComparison (additive r)

def equality : Parse Node := binaryLevel (checkAny [.eq, .neq]) (comparison r)

def logicalLevel (mark : Symbol) (operand : Parse Node) : Parse Node :=
  leftAssociative (check (.symbol mark)) operand fun place _ left right =>
    .binary place mark.spelling left right

def conjunction : Parse Node := logicalLevel .and (equality r)

def disjunction : Parse Node := logicalLevel .or (conjunction r)

def conditional : Parse Node := do
  let condition ← disjunction r
  let place ← here
  if ← accept (.symbol .question) then
    let consequent ← r.assignment
    expectSymbol .colon
    return .conditional place condition consequent (← r.assignment)
  else return condition

/-- An assignment groups to the right. -/
def assignment : Parse Node := do
  let target ← conditional r
  let place ← here
  if ← accept (.symbol .assign) then return .assign place target (← r.assignment)
  else return target

def expression : Parse Node :=
  leftAssociative (checkAny [.pipe]) (assignment r) fun place _ left right =>
    .pipe place left right

/-! ### Statements -/

def names (closing : Symbol) (between : Parse Unit) : Parse (List String) := do
  let ns ← collectSeparated (check (.symbol closing)) expectIdentifier between
  expectSymbol closing
  return ns

def importDeclaration : Parse Node := do
  let place ← here
  let _ ← advance
  expectSymbol .leftBrace
  let specifiers ← names .rightBrace skipNewlines
  let _ ← expect (.keyword .fromWord)
  let source ← expect .string
  skipTerminator
  return .imports place specifiers source.value

def exportedName : Node → List String
  | .component _ name _ _ | .function _ name _ _ _ | .binding _ name _ _ _ => [name]
  | _ => []

def exportDeclaration : Parse Node := do
  let place ← here
  let _ ← advance
  if ← accept (.symbol .leftBrace) then
    let specifiers ← names .rightBrace skipNewlines
    skipTerminator
    return .exports place specifiers none
  else
    let declaration ← r.statement
    return .exports place (exportedName declaration) (some declaration)

def componentDeclaration : Parse Node := do
  let place ← here
  let _ ← advance
  let name ← expectIdentifier
  let ps ← if ← accept (.symbol .leftParen) then do
      let ps ← params r
      expectSymbol .rightParen
      pure ps
    else pure []
  return .component place name ps (← block r)

/-- The type of a function's result behind `->`, which is two tokens. -/
def resultType : Parse (Option TypeExpr) := do
  if (← check (.symbol .minus)) && (← peekNext).any (·.kind == .symbol .gt) then
    let _ ← advance
    let _ ← advance
    return some (← r.typeExpr)
  else return none

def functionDeclaration : Parse Node := do
  let place ← here
  let _ ← advance
  let name ← expectIdentifier
  expectSymbol .leftParen
  let ps ← params r
  expectSymbol .rightParen
  let result ← resultType r
  return .function place name ps result (← block r)

/-- A name with its type and, behind an equals sign, its value. -/
def nameAndValue : Parse (String × Option TypeExpr × Node) := do
  let name ← expectIdentifier
  let written ← optionalType r
  expectSymbol .assign
  let value ← r.expression
  skipTerminator
  return (name, written, value)

def bindingDeclaration : Parse Node := do
  let place ← here
  let word ← advance
  let (name, written, value) ← nameAndValue r
  return .binding place name (word.kind == .keyword .varWord) written value

def stateDeclaration : Parse Node := do
  let place ← here
  let _ ← advance
  let (name, written, value) ← nameAndValue r
  return .state place name written value

def effectDeclaration : Parse Node := do
  let place ← here
  let _ ← advance
  let dependencies ←
    if ← accept (.symbol .leftParen) then names .rightParen (pure ()) else pure []
  return .effect place dependencies (← block r)

/-- A property of a style, which ends with a comma, a semicolon or a line. -/
def styleProperty : Parse (Entry Node) := do
  let p ← property r
  unless ← accept (.symbol .comma) do
    let _ ← accept (.symbol .semicolon)
  skipNewlines
  return p

/-- What follows the name of a style. -/
def styleTail (place : Place) (name : Option String) : Parse Node := do
  expectSymbol .leftBrace
  skipNewlines
  let properties ← collectUntil (check (.symbol .rightBrace)) (styleProperty r)
  expectSymbol .rightBrace
  return .style place name properties

def styleDeclaration : Parse Node := do
  let place ← here
  let _ ← advance
  let name ← if ← check .identifier then (fun t => some t.value) <$> advance else pure none
  styleTail r place name

/-- Nothing to return follows. -/
def endsReturn : Kind → Bool
  | .newline | .symbol .rightBrace | .symbol .semicolon | .endOfFile => true
  | _ => false

def returnStatement : Parse Node := do
  let place ← here
  let _ ← advance
  let value ← if endsReturn (← peek) then pure none else some <$> r.expression
  skipTerminator
  return .returning place value

def blockStatement : Parse Node := do
  let place ← here
  return .block place (← block r)

def expressionStatement : Parse Node := do
  let place ← here
  let e ← expression r
  skipTerminator
  return .expression place e

def statement : Parse Node := do
  match ← peek with
  | .keyword .importWord => importDeclaration
  | .keyword .exportWord => exportDeclaration r
  | .keyword .componentWord => componentDeclaration r
  | .keyword .fnWord => functionDeclaration r
  | .keyword .letWord | .keyword .varWord => bindingDeclaration r
  | .keyword .stateWord => stateDeclaration r
  | .keyword .effectWord => effectDeclaration r
  | .keyword .styleWord => styleDeclaration r
  | .keyword .returnWord => returnStatement r
  | .keyword .ifWord => ifElse r
  | .keyword .forWord => forEach r
  | .symbol .leftBrace => if ← atObject then expressionStatement r else blockStatement r
  | _ => if ← atElement then element r else expressionStatement r

/-! ### Programs -/

/-- The productions to a depth of nesting. -/
def rules : Nat → Rules
  | 0 => {
      expression := throw .endless, assignment := throw .endless, unary := throw .endless
      statement := throw .endless, element := throw .endless, ifElse := throw .endless
      typeExpr := throw .endless }
  | n + 1 => {
      expression := fun c => expression (rules n) c
      assignment := fun c => assignment (rules n) c
      unary := fun c => unary (rules n) c
      statement := fun c => statement (rules n) c
      element := fun c => element (rules n) c
      ifElse := fun c => ifElse (rules n) c
      typeExpr := fun c => typeExpr (rules n) c }

def programBody : Parse (List Node) :=
  collectUntil (do skipNewlines; atEnd) r.statement

/-- A depth of nesting that some tokens cannot exceed: each level uses a token, and those of a
template fragment use a character of it. -/
def nestingBound (tokens : List Token) : Nat :=
  tokens.foldr (fun t n => (if t.template then t.value.length + 1 else 1) + n) 2

/-- Reads a program, and tells how many tokens each template fragment had that was read. -/
def parseTraced (tokens : List Token) (file : String) : Except SyntaxFault Program × List Nat :=
  match tokens with
  | [] => (.error .noTokens, [])
  | current :: rest =>
    match programBody (rules (nestingBound tokens)) { current, rest, file } with
    | .ok body c => (.ok { body, file, place := some ⟨1, 1, file⟩ }, c.fragments.reverse)
    | .error e c => (.error e, c.fragments.reverse)

end UiScript.Syntax

namespace UiScript.Program

def ofTokens (tokens : List Token) (file : String) : Except SyntaxFault Program :=
  (Syntax.parseTraced tokens file).1

def parse (source file : String) : Except SyntaxFault Program :=
  match Token.tokenize source file with
  | .error e => .error (.lexical e)
  | .ok tokens => ofTokens tokens file

end UiScript.Program
