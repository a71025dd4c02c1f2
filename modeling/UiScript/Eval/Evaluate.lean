import UiScript.Eval.Operator

/-!
# Evaluation

The value of an expression in a scope of values. A name that is not in scope stands for itself, and
what has no value, such as a call, is the empty text.
-/

namespace UiScript

namespace Node

mutual

def evaluate : Node → Dict Value → Except NumberError Value
  | .identifier _ name, scope => .ok ((Dict.get? scope name).getD (.str name))
  | .number place value, _ => .ok (value.toValue (.calculated place))
  | .string _ value, _ => .ok (.str value)
  | .boolean _ value, _ => .ok (.bool value)
  | .null _, _ => .ok .null
  | .array _ elements, scope => .list <$> evaluateList elements scope
  | .object _ properties, scope => do
    return .dict (Dict.ofEntries (← evaluateEntries properties scope))
  | .binary _ "&&" left right, scope => do
    let l ← evaluate left scope
    if l.isTruthy then evaluate right scope else return l
  | .binary _ "||" left right, scope => do
    let l ← evaluate left scope
    if l.isTruthy then return l else evaluate right scope
  | .binary place op left right, scope => do
    let l ← evaluate left scope
    let r ← evaluate right scope
    Value.binary (.calculated place) op l r
  | .unary place op operand, scope => do
    let v ← evaluate operand scope
    if op == "!" then return .bool !v.isTruthy
    else return .ofNumber (.calculated place) v.asNumber.neg
  | .member _ obj property computed index, scope => do
    let v ← evaluate obj scope
    if computed then
      let key ← evaluateIndex index scope
      v.member key
    else v.member (.str property)
  | .conditional _ condition consequent alternate, scope => do
    let c ← evaluate condition scope
    if c.isTruthy then evaluate consequent scope else evaluate alternate scope
  | .bare .., _ | .template .., _ | .call .., _ | .assign .., _ | .arrow .., _ | .pipe .., _
  | .element .., _ | .text .., _ | .interpolation .., _ | .use .., _ | .returning .., _
  | .ifElse .., _ | .forEach .., _ | .expression .., _ | .block .., _ | .component .., _
  | .function .., _ | .binding .., _ | .state .., _ | .effect .., _ | .style .., _
  | .imports .., _ | .exports .., _ | .program .., _ => .ok (.str "")

def evaluateList : List Node → Dict Value → Except NumberError (List Value)
  | [], _ => .ok []
  | n :: ns, scope => do
    let v ← evaluate n scope
    return v :: (← evaluateList ns scope)

/-- The values of some properties; a property without an expression is the empty text. -/
def evaluateEntries : List (Entry Node) → Dict Value → Except NumberError (List (String × Value))
  | [], _ => .ok []
  | ⟨name, none⟩ :: es, scope => do return (name, .str "") :: (← evaluateEntries es scope)
  | ⟨name, some n⟩ :: es, scope => do
    let v ← evaluate n scope
    return (name, v) :: (← evaluateEntries es scope)

def evaluateIndex : Option Node → Dict Value → Except NumberError Value
  | none, _ => .ok .null
  | some n, scope => evaluate n scope

end

end Node

end UiScript
