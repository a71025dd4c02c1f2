import UiScript.Syntax.Basic

/-!
# Types

Types are compared by their kind; only arrays are looked into. `Any` and `Void` agree with
everything.
-/

namespace UiScript

inductive Ty where
  /-- A type of which nothing is known. -/
  | unknown
  | primitive (name : String)
  | array (element : Ty)
  | object (fields : List (String × Ty))
  | function (params : List Ty) (result : Ty)
  | component (name : String) (props : List (String × Ty))
  deriving Inhabited

namespace Ty

abbrev int : Ty := .primitive "Int"
abbrev string : Ty := .primitive "String"
abbrev bool : Ty := .primitive "Bool"
abbrev null : Ty := .primitive "Null"
abbrev void : Ty := .primitive "Void"
abbrev any : Ty := .primitive "Any"

/-! ### Equality -/

mutual

def same : Ty → Ty → Bool
  | .unknown, .unknown => true
  | .primitive a, .primitive b => a == b
  | .array a, .array b => same a b
  | .object fs, .object gs => sameFields fs gs
  | .function ps r, .function qs s => sameList ps qs && same r s
  | .component a ps, .component b qs => a == b && sameFields ps qs
  | _, _ => false

def sameList : List Ty → List Ty → Bool
  | [], [] => true
  | a :: as, b :: bs => same a b && sameList as bs
  | _, _ => false

def sameFields : List (String × Ty) → List (String × Ty) → Bool
  | [], [] => true
  | (k, a) :: as, (l, b) :: bs => k == l && same a b && sameFields as bs
  | _, _ => false

end

/-! ### Kinds and texts -/

def kind : Ty → String
  | .unknown => "Unknown"
  | .primitive name => name
  | .array _ => "Array"
  | .object _ => "Object"
  | .function _ _ => "Function"
  | .component _ _ => "Component"

mutual

/-- The text of a type; objects and components show no fields. -/
def text : Ty → String
  | .array element => "Array<" ++ text element ++ ">"
  | .function params result =>
    "Function(" ++ String.intercalate ", " (texts params) ++ ") -> " ++ text result
  | .unknown => "Unknown"
  | .primitive name => name
  | .object _ => "Object"
  | .component _ _ => "Component"

def texts : List Ty → List String
  | [] => []
  | t :: ts => text t :: texts ts

end

/-! ### Compatibility -/

/-- A type that agrees with every type. -/
def isUniversal (t : Ty) : Bool := t.kind == "Any" || t.kind == "Void"

/-- A value of the first type may stand where the second is required. -/
def isCompatible (actual expected : Ty) : Bool :=
  if actual.isUniversal || expected.isUniversal then true
  else if actual.kind != expected.kind then false
  else
    match actual, expected with
    | .array a, .array e => isCompatible a e
    | _, _ => true

/-- The type of a field of an object or a prop of a component; the first of its name counts. -/
def field? (t : Ty) (name : String) : Option Ty :=
  match t with
  | .object fields => List.lookup name fields
  | .component _ props => List.lookup name props
  | _ => none

/-! ### Written types -/

/-- The types that a name alone stands for. -/
def builtin? (name : String) : Option Ty :=
  if ["Int", "String", "Bool", "Null", "Void", "Any"].contains name then some (.primitive name)
  else none

/-- The type that is meant by a written one; an unknown name means `Any`. -/
def ofTypeExpr : TypeExpr → Ty
  | .mk "Array" (element :: _) => .array (ofTypeExpr element)
  | .mk "Array" [] => .array any
  | .mk "Object" _ => .object []
  | .mk "Function" _ => .function [] any
  | .mk name _ => (builtin? name).getD any

def ofWritten : Option TypeExpr → Ty
  | none => any
  | some t => ofTypeExpr t

end Ty

end UiScript
