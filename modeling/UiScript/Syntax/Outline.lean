import UiScript.Syntax.Basic

/-!
# The nodes of a tree in order

A node stands before the nodes inside it, and those stand in the order of the fields they belong to.
-/

namespace UiScript.Node

mutual

/-- A node and all nodes inside it, outer ones first. -/
def outline : Node → List Node
  | n@(.template _ parts) => n :: outlineParts parts
  | n@(.binary _ _ left right) => n :: (outline left ++ outline right)
  | n@(.unary _ _ operand) => n :: outline operand
  | n@(.call _ callee arguments) => n :: (outline callee ++ outlineList arguments)
  | n@(.member _ obj _ _ index) => n :: (outline obj ++ outlineOption index)
  | n@(.assign _ target value) => n :: (outline target ++ outline value)
  | n@(.arrow _ params (.block body)) => n :: (outlineParams params ++ outlineList body)
  | n@(.arrow _ params (.value body)) => n :: (outlineParams params ++ outline body)
  | n@(.array _ elements) => n :: outlineList elements
  | n@(.object _ properties) => n :: outlineEntries properties
  | n@(.conditional _ condition consequent alternate) =>
    n :: (outline condition ++ outline consequent ++ outline alternate)
  | n@(.pipe _ left right) => n :: (outline left ++ outline right)
  | n@(.element _ _ attributes children _) =>
    n :: (outlineEntries attributes ++ outlineList children)
  | n@(.interpolation _ value) => n :: outline value
  | n@(.use _ _ props children _) => n :: (outlineEntries props ++ outlineList children)
  | n@(.returning _ value) => n :: outlineOption value
  | n@(.ifElse _ condition consequent none) => n :: (outline condition ++ outlineList consequent)
  | n@(.ifElse _ condition consequent (some alternate)) =>
    n :: (outline condition ++ outlineList consequent ++ outlineList alternate)
  | n@(.forEach _ _ iterable body) => n :: (outline iterable ++ outlineList body)
  | n@(.expression _ value) => n :: outline value
  | n@(.block _ body) => n :: outlineList body
  | n@(.component _ _ params body) => n :: (outlineParams params ++ outlineList body)
  | n@(.function _ _ params _ body) => n :: (outlineParams params ++ outlineList body)
  | n@(.binding _ _ _ _ value) => n :: outline value
  | n@(.state _ _ _ value) => n :: outline value
  | n@(.effect _ _ body) => n :: outlineList body
  | n@(.style _ _ properties) => n :: outlineEntries properties
  | n@(.exports _ _ declaration) => n :: outlineOption declaration
  | n@(.program _ body _) => n :: outlineList body
  | n => [n]

def outlineList : List Node → List Node
  | [] => []
  | n :: ns => outline n ++ outlineList ns

def outlineOption : Option Node → List Node
  | none => []
  | some n => outline n

def outlineEntries : List (Entry Node) → List Node
  | [] => []
  | ⟨_, value⟩ :: es => outlineOption value ++ outlineEntries es

def outlineParams : List (Param Node) → List Node
  | [] => []
  | ⟨_, _, value⟩ :: ps => outlineOption value ++ outlineParams ps

def outlineParts : List (Part Node) → List Node
  | [] => []
  | .text _ :: ps => outlineParts ps
  | .hole e :: ps => outline e ++ outlineParts ps

end

end UiScript.Node
