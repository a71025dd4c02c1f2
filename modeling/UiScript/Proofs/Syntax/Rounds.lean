import UiScript.Proofs.Syntax.Phrases
import UiScript.Proofs.Syntax.Statements

/-!
# Rounds of loops

The grammar repeats by loops. What one round of each of them does is named here, so that facts about
a loop can be stated of its rounds.
-/

namespace UiScript.Syntax

variable (r : Rules)

def paramStep : List (Param Node) → Parse (List (Param Node) ⊕ List (Param Node)) :=
  separatedStep (check (.symbol .rightParen)) (param r) skipNewlines

/-- A further statement of a block. -/
def blockStep : List Node → Parse (List Node ⊕ List Node) :=
  untilStep (do return (← check (.symbol .rightBrace)) || (← atEnd)) (withNewlines r.statement)

def attributeStep : List (Entry Node) → Parse (List (Entry Node) ⊕ List (Entry Node)) :=
  untilStep (do return isTagEnd (← peek)) (withNewlines (tagAttribute r))

/-- A further word of bare text. -/
def textStep : List String → Parse (List String ⊕ List String) :=
  untilStep (do return !isTextToken (← peek)) do return (← advance).value

/-- A further property of an object. -/
def propertyStep : List (Entry Node) → Parse (List (Entry Node) ⊕ List (Entry Node)) :=
  untilStep (check (.symbol .rightBrace)) (withComma (property r))

/-- A further element of an array. -/
def elementStep : List Node → Parse (List Node ⊕ List Node) :=
  untilStep (check (.symbol .rightBracket)) (withComma r.expression)

/-- A further argument of a call. -/
def argumentStep : List Node → Parse (List Node ⊕ List Node) :=
  separatedStep (check (.symbol .rightParen)) r.expression skipNewlines

/-- A further binary operator that keeps its spelling. -/
def binaryStep (isOperator : Parse Bool) (operand : Parse Node) : Node → Parse (Node ⊕ Node) :=
  operatorStep isOperator operand fun place op left right => .binary place op left right

def logicalStep (mark : Symbol) (operand : Parse Node) : Node → Parse (Node ⊕ Node) :=
  operatorStep (check (.symbol mark)) operand fun place _ left right =>
    .binary place mark.spelling left right

def pipeStep : Node → Parse (Node ⊕ Node) :=
  operatorStep (checkAny [.pipe]) (assignment r) fun place _ left right => .pipe place left right

/-- A further name in a list of names. -/
def nameStep (closing : Symbol) (between : Parse Unit) :
    List String → Parse (List String ⊕ List String) :=
  separatedStep (check (.symbol closing)) expectIdentifier between

/-- A further property of a style. -/
def styleStep : List (Entry Node) → Parse (List (Entry Node) ⊕ List (Entry Node)) :=
  untilStep (check (.symbol .rightBrace)) (styleProperty r)

structure Loop where
  {State Result : Type}
  round : State → Parse (State ⊕ Result)

def loops : List Loop := [
  ⟨typeArgumentStep r⟩, ⟨paramStep r⟩, ⟨blockStep r⟩, ⟨hyphenStep⟩, ⟨attributeStep r⟩, ⟨textStep⟩,
  ⟨childStep r⟩, ⟨propertyStep r⟩, ⟨elementStep r⟩, ⟨argumentStep r⟩, ⟨accessStep r⟩,
  ⟨binaryStep (checkAny [.star, .slash, .percent]) (unary r)⟩,
  ⟨binaryStep (checkAny [.plus, .minus]) (multiplicative r)⟩,
  ⟨binaryStep isComparison (additive r)⟩, ⟨binaryStep (checkAny [.eq, .neq]) (comparison r)⟩,
  ⟨logicalStep .and (equality r)⟩, ⟨logicalStep .or (conjunction r)⟩, ⟨pipeStep r⟩,
  ⟨nameStep .rightBrace skipNewlines⟩, ⟨nameStep .rightParen (pure ())⟩, ⟨styleStep r⟩,
  ⟨programStep r⟩]

end UiScript.Syntax
