import UiScript.Types.Basic

/-!
# Scopes

A scope is a list of frames, the innermost first. A name is looked up from the inside out, and
defined in the innermost frame.
-/

namespace UiScript

/-- The types of the names in one block. -/
abbrev Frame := Dict Ty

/-- The frames around a node, the innermost first. -/
abbrev Scope := List Frame

namespace Scope

/-- The type of a name. -/
def lookup? : Scope → String → Option Ty
  | [], _ => none
  | frame :: outer, name =>
    match Dict.get? frame name with
    | some t => some t
    | none => lookup? outer name

/-- Defines a name in the innermost frame. -/
def define (name : String) (t : Ty) : Scope → Scope
  | [] => [[(name, t)]]
  | frame :: outer => Dict.set name t frame :: outer

end Scope

/-! ### Trees of scopes -/

/-- Frames that share the frames around them. -/
structure ScopeTree where
  /-- Each frame with the number of the one that it lies in. -/
  frames : List (Option Nat × Frame) := [(none, [])]
  deriving Inhabited

namespace ScopeTree

/-- The scope of a frame, among the first ones: the frame itself and those around it. A frame can
only lie in an earlier one. -/
def scopeAmong (tree : ScopeTree) : Nat → Nat → Scope
  | 0, _ => []
  | n + 1, i =>
    if i = n then
      match tree.frames[i]? with
      | none => []
      | some (outer, frame) => frame :: outer.elim [] (tree.scopeAmong n)
    else tree.scopeAmong n i

def scope (tree : ScopeTree) (i : Nat) : Scope := tree.scopeAmong (i + 1) i

def define (tree : ScopeTree) (i : Nat) (name : String) (t : Ty) : ScopeTree :=
  { frames := tree.frames.modify i fun (outer, frame) => (outer, Dict.set name t frame) }

/-- Adds a frame inside another one; its number comes first. -/
def child (tree : ScopeTree) (i : Nat) : Nat × ScopeTree :=
  (tree.frames.length, { frames := tree.frames ++ [(some i, [])] })

theorem length_define (tree : ScopeTree) (i : Nat) (name : String) (t : Ty) :
    (tree.define i name t).frames.length = tree.frames.length :=
  List.length_modify ..

theorem length_child (tree : ScopeTree) (i : Nat) :
    (tree.child i).2.frames.length = tree.frames.length + 1 :=
  List.length_append

end ScopeTree

/-- A tree of scopes with the frame that names are looked up from. -/
structure Scopes extends ScopeTree where
  current : Nat
  current_lt : current < frames.length

namespace Scopes

/-- A single frame, in which nothing is defined. -/
def initial : Scopes := ⟨{}, 0, Nat.zero_lt_one⟩

/-- The current frame and those around it. -/
def visible (s : Scopes) : Scope := s.scope s.current

def defineIn (s : Scopes) (i : Nat) (name : String) (t : Ty) : Scopes :=
  ⟨s.define i name t, s.current, Nat.lt_of_lt_of_eq s.current_lt (s.length_define i name t).symm⟩

/-- Adds a frame inside the current one, which stays the current one. -/
def opened (s : Scopes) : Nat × Scopes :=
  let child := s.child s.current
  (child.1, ⟨child.2, s.current, Nat.lt_of_lt_of_eq (Nat.lt_succ_of_lt s.current_lt)
    (s.length_child s.current).symm⟩)

/-- Makes a frame the current one. -/
def enter (s : Scopes) (i : Nat) : Scopes :=
  if h : i < s.frames.length then ⟨s.toScopeTree, i, h⟩ else s

end Scopes

end UiScript
