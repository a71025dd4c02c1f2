import UiScript.Proofs.Places
import UiScript.Proofs.Script.Alike

/-!
# Writing to the state of a component

An assignment to a state of the component around it is written as one to a member of `__state`, so
that the component is rendered again. Which assignments these are is decided by the scopes between
the assignment and the body of the component. Here the decision is made in the tree: the target of a
routed assignment becomes a member, and the generator has nothing left to decide.

The generator does not hide all names that the scopes bind: it overlooks states and exported
declarations in blocks, everything that the blocks in markup declare, and the parameters of an
arrow function in their own default values.
-/

namespace UiScript.Script

open List

/-! ### Scopes -/

/-- A scope between an assignment and the body of the component. -/
inductive Scope where
  /-- The parameters of a function, also around their default values, or those of an arrow function
  around its body. -/
  | params (names : List String)
  /-- The parameters of an arrow function around their default values. -/
  | defaults (names : List String)
  | loop (name : String)
  | block (statements : List Node)
  /-- The block of a conditional or a loop among markup. -/
  | children (nodes : List Node)

def boundName? (n : Node) : Option String :=
  match n.declared with
  | some (.binding _ name _ _ _) | some (.function _ name _ _ _) | some (.state _ name _ _) =>
    some name
  | _ => none

def Scope.binds : Scope → List String
  | .params names | .defaults names => names
  | .loop name => [name]
  | .block ns | .children ns => ns.filterMap boundName?

/-- The names that the generator takes a scope to bind. -/
def Scope.hides : Scope → List String
  | .params names => names
  | .loop name => [name]
  | .block ns => ns.filterMap blockBinding?
  | .defaults _ | .children _ => []

/-- The name is a state and no scope has it. -/
def isRouted (names : Scope → List String) (S : List String) (Γ : List Scope) (x : String) : Bool :=
  S.contains x && Γ.all fun s => !(names s).contains x

/-! ### Routing in the tree -/

def stateMember (place : Option Place) (x : String) : Node :=
  .member place (.identifier place "__state") x false none

def Scope.ofBlock (pos : Position) (ns : List Node) : Scope :=
  match pos with
  | .child => .children ns
  | _ => .block ns

/-- The position of the nodes in a block that stands in a position. -/
def Position.inner : Position → Position
  | .child => .child
  | _ => .statement

section

variable (routed : List Scope → String → Bool)

mutual

/-- Makes the routed assignments of a node within some scopes explicit. Components in it have their
own state. -/
def route : List Scope → Position → Node → Node
  | Γ, _, .assign p (.identifier q x) value =>
    .assign p (if routed Γ x then stateMember q x else .identifier q x)
      (route Γ .expression value)
  | Γ, _, .assign p target value =>
    .assign p (route Γ .expression target) (route Γ .expression value)
  | Γ, _, .template p parts => .template p (routeParts Γ parts)
  | Γ, _, .binary p op left right =>
    .binary p op (route Γ .expression left) (route Γ .expression right)
  | Γ, _, .unary p op n => .unary p op (route Γ .expression n)
  | Γ, _, .call p callee arguments =>
    .call p (route Γ .expression callee) (routeList Γ .expression arguments)
  | Γ, _, .member p obj property computed index =>
    .member p (route Γ .expression obj) property computed
      (routeOption Γ .expression index)
  | Γ, _, .arrow p params (.block body) =>
    .arrow p (routeParams (.defaults (params.map (·.name)) :: Γ) params)
      (.block (routeList (.block body :: .params (params.map (·.name)) :: Γ) .statement body))
  | Γ, _, .arrow p params (.value body) =>
    .arrow p (routeParams (.defaults (params.map (·.name)) :: Γ) params)
      (.value (route (.params (params.map (·.name)) :: Γ) .expression body))
  | Γ, _, .array p elements => .array p (routeList Γ .expression elements)
  | Γ, _, .object p properties => .object p (routeEntries Γ properties)
  | Γ, _, .conditional p condition consequent alternate =>
    .conditional p (route Γ .expression condition) (route Γ .expression consequent)
      (route Γ .expression alternate)
  | Γ, _, .pipe p left right =>
    .pipe p (route Γ .expression left) (route Γ .expression right)
  | Γ, _, .element p tag attributes children selfClosing =>
    .element p tag (routeEntries Γ attributes) (routeList Γ .child children)
      selfClosing
  | Γ, _, .interpolation p value => .interpolation p (route Γ .expression value)
  | Γ, _, .use p name props children selfClosing =>
    .use p name (routeEntries Γ props) children selfClosing
  | Γ, _, .returning p value => .returning p (routeOption Γ .expression value)
  | Γ, pos, .ifElse p condition consequent alternate =>
    .ifElse p (route Γ .expression condition)
      (routeList (.ofBlock pos consequent :: Γ) pos.inner consequent)
      (routeOptionList Γ pos alternate)
  | Γ, pos, .forEach p name iterable body =>
    .forEach p name (route Γ .expression iterable)
      (routeList (.ofBlock pos body :: .loop name :: Γ) pos.inner body)
  | Γ, _, .expression p value => .expression p (route Γ .expression value)
  | Γ, _, .block p body => .block p (routeList (.block body :: Γ) .statement body)
  | Γ, _, .function p name params result body =>
    .function p name (routeParams (.params (params.map (·.name)) :: Γ) params) result
      (routeList (.block body :: .params (params.map (·.name)) :: Γ) .statement body)
  | Γ, _, .binding p name mutable written value =>
    .binding p name mutable written (route Γ .expression value)
  | Γ, _, .state p name written value => .state p name written (route Γ .expression value)
  | Γ, _, .effect p dependencies body =>
    .effect p dependencies (routeList (.block body :: Γ) .statement body)
  | Γ, _, .style p name properties => .style p name (routeEntries Γ properties)
  | Γ, _, .exports p specifiers declaration =>
    .exports p specifiers (routeOption Γ .statement declaration)
  | _, _, n => n

def routeList : List Scope → Position → List Node → List Node
  | _, _, [] => []
  | Γ, pos, n :: ns => route Γ pos n :: routeList Γ pos ns

def routeOption : List Scope → Position → Option Node → Option Node
  | _, _, none => none
  | Γ, pos, some n => some (route Γ pos n)

def routeOptionList : List Scope → Position → Option (List Node) → Option (List Node)
  | _, _, none => none
  | Γ, pos, some ns => some (routeList (.ofBlock pos ns :: Γ) pos.inner ns)

def routeEntries : List Scope → List (Entry Node) → List (Entry Node)
  | _, [] => []
  | Γ, ⟨name, value⟩ :: es =>
    ⟨name, routeOption Γ .expression value⟩ :: routeEntries Γ es

def routeParams : List Scope → List (Param Node) → List (Param Node)
  | _, [] => []
  | Γ, ⟨name, written, value⟩ :: ps =>
    ⟨name, written, routeOption Γ .expression value⟩ :: routeParams Γ ps

def routeParts : List Scope → List (Part Node) → List (Part Node)
  | _, [] => []
  | Γ, .text s :: ps => .text s :: routeParts Γ ps
  | Γ, .hole n :: ps => .hole (route Γ .expression n) :: routeParts Γ ps

end

end

/-! ### The assignments to names -/

mutual

/-- The assignments to names in a node within some scopes: their scopes and the names. -/
def writes : List Scope → Position → Node → List (List Scope × String)
  | Γ, _, .assign _ (.identifier _ x) value => (Γ, x) :: writes Γ .expression value
  | Γ, _, .assign _ target value => writes Γ .expression target ++ writes Γ .expression value
  | Γ, _, .template _ parts => writesParts Γ parts
  | Γ, _, .binary _ _ left right => writes Γ .expression left ++ writes Γ .expression right
  | Γ, _, .unary _ _ n => writes Γ .expression n
  | Γ, _, .call _ callee arguments =>
    writes Γ .expression callee ++ writesList Γ .expression arguments
  | Γ, _, .member _ obj _ _ index => writes Γ .expression obj ++ writesOption Γ .expression index
  | Γ, _, .arrow _ params (.block body) =>
    writesParams (.defaults (params.map (·.name)) :: Γ) params ++
      writesList (.block body :: .params (params.map (·.name)) :: Γ) .statement body
  | Γ, _, .arrow _ params (.value body) =>
    writesParams (.defaults (params.map (·.name)) :: Γ) params ++
      writes (.params (params.map (·.name)) :: Γ) .expression body
  | Γ, _, .array _ elements => writesList Γ .expression elements
  | Γ, _, .object _ properties => writesEntries Γ properties
  | Γ, _, .conditional _ condition consequent alternate =>
    writes Γ .expression condition ++ writes Γ .expression consequent ++
      writes Γ .expression alternate
  | Γ, _, .pipe _ left right => writes Γ .expression left ++ writes Γ .expression right
  | Γ, _, .element _ _ attributes children _ =>
    writesEntries Γ attributes ++ writesList Γ .child children
  | Γ, _, .interpolation _ value => writes Γ .expression value
  | Γ, _, .use _ _ props _ _ => writesEntries Γ props
  | Γ, _, .returning _ value => writesOption Γ .expression value
  | Γ, pos, .ifElse _ condition consequent alternate =>
    writes Γ .expression condition ++
      writesList (.ofBlock pos consequent :: Γ) pos.inner consequent ++
      writesOptionList Γ pos alternate
  | Γ, pos, .forEach _ name iterable body =>
    writes Γ .expression iterable ++
      writesList (.ofBlock pos body :: .loop name :: Γ) pos.inner body
  | Γ, _, .expression _ value => writes Γ .expression value
  | Γ, _, .block _ body => writesList (.block body :: Γ) .statement body
  | Γ, _, .function _ _ params _ body =>
    writesParams (.params (params.map (·.name)) :: Γ) params ++
      writesList (.block body :: .params (params.map (·.name)) :: Γ) .statement body
  | Γ, _, .binding _ _ _ _ value => writes Γ .expression value
  | Γ, _, .state _ _ _ value => writes Γ .expression value
  | Γ, _, .effect _ _ body => writesList (.block body :: Γ) .statement body
  | Γ, _, .style _ _ properties => writesEntries Γ properties
  | Γ, _, .exports _ _ declaration => writesOption Γ .statement declaration
  | _, _, _ => []

def writesList : List Scope → Position → List Node → List (List Scope × String)
  | _, _, [] => []
  | Γ, pos, n :: ns => writes Γ pos n ++ writesList Γ pos ns

def writesOption : List Scope → Position → Option Node → List (List Scope × String)
  | _, _, none => []
  | Γ, pos, some n => writes Γ pos n

def writesOptionList : List Scope → Position → Option (List Node) → List (List Scope × String)
  | _, _, none => []
  | Γ, pos, some ns => writesList (.ofBlock pos ns :: Γ) pos.inner ns

def writesEntries : List Scope → List (Entry Node) → List (List Scope × String)
  | _, [] => []
  | Γ, ⟨_, value⟩ :: es => writesOption Γ .expression value ++ writesEntries Γ es

def writesParams : List Scope → List (Param Node) → List (List Scope × String)
  | _, [] => []
  | Γ, ⟨_, _, value⟩ :: ps => writesOption Γ .expression value ++ writesParams Γ ps

def writesParts : List Scope → List (Part Node) → List (List Scope × String)
  | _, [] => []
  | Γ, .text _ :: ps => writesParts Γ ps
  | Γ, .hole n :: ps => writes Γ .expression n ++ writesParts Γ ps

end

lemma route_assign (routed : List Scope → String → Bool) (Γ : List Scope) (pos : Position)
    (p : Option Place) {target : Node} (h : bareName? target = none) (value : Node) :
    route routed Γ pos (.assign p target value) =
      .assign p (route routed Γ .expression target) (route routed Γ .expression value) := by
  rw [route]
  rintro q x rfl
  cases h

variable {x : String} {Γ : List Scope} {n : Node}

lemma eq_identifier_of_bareName (h : bareName? n = some x) : ∃ q, n = .identifier q x := by
  cases n <;> cases h
  exact ⟨_, rfl⟩

/-- Two decisions agree on some assignments. -/
def AgreeOn (d d' : List Scope → String → Bool) (ws : List (List Scope × String)) : Prop :=
  ∀ w ∈ ws, d w.1 w.2 = d' w.1 w.2

instance (d d' : List Scope → String → Bool) (ws : List (List Scope × String)) :
    Decidable (AgreeOn d d' ws) :=
  inferInstanceAs (Decidable (∀ w ∈ ws, d w.1 w.2 = d' w.1 w.2))

section AgreeOn

variable {d d' : List Scope → String → Bool}

lemma agreeOn_nil : AgreeOn d d' [] := by simp [AgreeOn]

lemma agreeOn_append {ws vs : List (List Scope × String)} :
    AgreeOn d d' (ws ++ vs) ↔ AgreeOn d d' ws ∧ AgreeOn d d' vs := by
  simp [AgreeOn, or_imp, forall_and]

lemma agreeOn_cons {ws : List (List Scope × String)} :
    AgreeOn d d' ((Γ, x) :: ws) ↔ d Γ x = d' Γ x ∧ AgreeOn d d' ws := by
  simp [AgreeOn]

lemma target_eq_iff {q : Option Place} : (if d Γ x then stateMember q x else .identifier q x) =
      (if d' Γ x then stateMember q x else .identifier q x) ↔ d Γ x = d' Γ x := by
  cases d Γ x <;> cases d' Γ x <;> simp [stateMember]

/-- Two decisions route some nodes in the same way just if they agree on all assignments in them. -/
lemma routeList_eq_iff (Γ : List Scope) (pos : Position) (ns : List Node) :
    routeList d Γ pos ns = routeList d' Γ pos ns ↔ AgreeOn d d' (writesList Γ pos ns) := by
  apply routeList.induct
    (fun Γ pos n => route d Γ pos n = route d' Γ pos n ↔ AgreeOn d d' (writes Γ pos n))
    (fun Γ pos m => routeOptionList d Γ pos m = routeOptionList d' Γ pos m ↔
      AgreeOn d d' (writesOptionList Γ pos m))
    (fun Γ pos ns => routeList d Γ pos ns = routeList d' Γ pos ns ↔
      AgreeOn d d' (writesList Γ pos ns))
    (fun Γ es => routeEntries d Γ es = routeEntries d' Γ es ↔ AgreeOn d d' (writesEntries Γ es))
    (fun Γ pos m => routeOption d Γ pos m = routeOption d' Γ pos m ↔
      AgreeOn d d' (writesOption Γ pos m))
    (fun Γ ps => routeParams d Γ ps = routeParams d' Γ ps ↔ AgreeOn d d' (writesParams Γ ps))
    (fun Γ ps => routeParts d Γ ps = routeParts d' Γ ps ↔ AgreeOn d d' (writesParts Γ ps))
  all_goals
    intros
    simp [*, route, routeList, routeOption, routeOptionList, routeEntries, routeParams, routeParts,
      writes, writesList, writesOption, writesOptionList, writesEntries, writesParams, writesParts,
      agreeOn_nil, agreeOn_append, agreeOn_cons, target_eq_iff]

end AgreeOn

/-! ### State names within some scopes -/

/-- The state names that are left within some scopes. -/
def visible (S : List String) (Γ : List Scope) : List String :=
  S.filter fun x => Γ.all fun s => !s.hides.contains x

lemma visible_nil (S : List String) : visible S [] = S := by simp [visible]

lemma visible_cons (S : List String) (s : Scope) (Γ : List Scope) :
    visible S (s :: Γ) = hide s.hides (visible S Γ) := by
  simp only [visible, hide, filter_filter, all_cons]

lemma mem_visible {S : List String} : x ∈ visible S Γ ↔ isRouted Scope.hides S Γ x := by
  simp [visible, isRouted]

/-- A decision, and the state names of two runs within some scopes. What is routed is a state in the
first run, and all else is a state in both runs or in neither. -/
structure Routing where
  routed : List Scope → String → Bool
  runs : List Scope → Runs
  runs_cons (s : Scope) (Γ : List Scope) : runs (s :: Γ) = (runs Γ).hide s.hides
  state {Γ : List Scope} {x : String} (h : routed Γ x) : x ∈ (runs Γ).left
  same {Γ : List Scope} {x : String} (h : routed Γ x = false) :
    x ∈ (runs Γ).left ↔ x ∈ (runs Γ).right

/-- A run with some states, and one without any. -/
def Routing.hidden (S : List String) : Routing where
  routed := isRouted Scope.hides S
  runs Γ := ⟨0, visible S Γ, []⟩
  runs_cons s Γ := by rw [visible_cons]; rfl
  state := mem_visible.mpr
  same h := by simp [mem_visible, h]

/-- Two runs with the same states. -/
def Routing.none (d : ℕ) (S : List String) : Routing where
  routed _ _ := false
  runs Γ := ⟨d, visible S Γ, visible S Γ⟩
  runs_cons s Γ := by rw [visible_cons]
  state h := by cases h
  same _ := .rfl

/-- With nothing to route, nodes are left as they are. -/
lemma route_none {d : List Scope → String → Bool} (hd : ∀ Γ x, d Γ x = false) :
    (∀ Γ pos n, route d Γ pos n = n) ∧ (∀ Γ pos m, routeOptionList d Γ pos m = m) ∧
      (∀ Γ pos ns, routeList d Γ pos ns = ns) ∧ (∀ Γ es, routeEntries d Γ es = es) ∧
      (∀ Γ pos m, routeOption d Γ pos m = m) ∧ (∀ Γ ps, routeParams d Γ ps = ps) ∧
      ∀ Γ ps, routeParts d Γ ps = ps := by
  apply route.mutual_induct
  all_goals
    intros
    simp [*, route, routeList, routeOption, routeOptionList, routeEntries, routeParams, routeParts]

lemma SameHead.trans {n' n'' : Node} (h : SameHead n n') (h' : SameHead n' n'') :
    SameHead n n'' := by
  cases h
  cases h'
  constructor <;> simp only [*]

/-! ### The generator routes as the tree says -/

lemma sameHead_unplaced (n : Node) : SameHead n n.unplaced := by
  cases n with
  | bare _ cls => cases cls <;> constructor <;> rfl
  | arrow _ _ body => cases body <;> constructor <;> rfl
  | _ => constructor <;> rfl

lemma sameHead_route (d : List Scope → String → Bool) (Γ : List Scope) (pos : Position)
    (n : Node) : SameHead n (route d Γ pos n) := by
  cases n with
  | assign _ target => cases target <;> constructor <;> rfl
  | arrow _ _ body => cases body <;> constructor <;> rfl
  | _ => constructor <;> rfl

lemma stateMember_expr (q : Option Place) (x : String) :
    (lower (stateMember q x)).expr = pure ("__state." ++ x) := rfl

lemma assignment_stateMember (q : Option Place) (x : String) (value : Lowered) :
    assignment (stateMember q x, lower (stateMember q x)) value =
      (fun code => "__state." ++ x ++ " = " ++ code) <$> value.2.expr := by
  rw [map_eq_pure_bind]
  refine congrArg (value.2.expr >>= ·) (funext fun code => ?_)
  change (lower (stateMember q x)).expr >>= (fun target => pure (target ++ " = " ++ code)) = _
  rw [stateMember_expr, pure_bind]

/-- Markup is routed in the same way wherever it stands. -/
lemma route_markup (routed : List Scope → String → Bool) (Γ : List Scope) (pos pos' : Position)
    (h : roleOf n = .markup) : route routed Γ pos n = route routed Γ pos' n := by
  cases n with
  | element => simp only [route]
  | use => simp only [route]
  | _ => cases h

section Lower

variable (R : Routing) {Γ : List Scope}

/-- The decision of the generator, and the decision in the tree. -/
lemma assignment_route (q : Option Place) (x : String) (f : Forms) {value value' : Lowered}
    (hv : ExprAlike (R.runs Γ) value value') :
    let target := (if R.routed Γ x then stateMember q x else .identifier q x).unplaced
    Codes (R.runs Γ) (assignment (.identifier q x, f) value)
      (assignment (target, lower target) value') := by
  cases hx : R.routed Γ x with
  | true =>
    intro target
    have htarget : target = stateMember none x := rfl
    refine hv.forms.expr.bind fun hcode => .get_bind_left fun hg => ?_
    rw [hg.left, if_pos (contains_iff_mem.mpr (R.state hx))]
    exact .done (by abel) (hcode.before _)
  | false =>
    refine hv.forms.expr.bind fun hcode => .get_bind fun hg => ?_
    have hstate : (R.runs Γ).left.contains x = (R.runs Γ).right.contains x := by
      rw [Bool.eq_iff_iff, contains_iff_mem, contains_iff_mem, R.same hx]
    rw [hg.left, hg.right, hstate]
    exact .ite (.done (by abel) (hcode.before _)) (.done (by abel) (hcode.before _))

lemma Routing.runs_params (ps : List (Param Node)) :
    R.runs (.params (ps.map (·.name)) :: Γ) = (R.runs Γ).hide ((lowerParams ps).map (·.1)) := by
  rw [lowerParams, names_lowerParamsWith]
  exact R.runs_cons _ Γ

lemma Routing.block {ns : List Node} {ns' : List Lowered}
    (hns : Forall₂ (Lowered.Alike .statement (R.runs (.block ns :: Γ)))
      (lowerList ns) ns') : BlockAlike (R.runs Γ) (lowerList ns) ns' := by
  rw [R.runs_cons, Scope.hides, ← boundNames_lowerListWith Forms.unknown] at hns
  exact hns

lemma Routing.children {ns : List Node} {ns' : List Lowered}
    (hns : Forall₂ (Lowered.Alike .child (R.runs (.children ns :: Γ)))
      (lowerList ns) ns') : ChildrenAlike (R.runs Γ) (lowerList ns) ns' := by
  rwa [R.runs_cons, Scope.hides, Runs.hide_nil] at hns

lemma Routing.defaults {names : List String} {es es' : List (String × Option Lowered)}
    (hes : Forall₂ (EntryAlike (R.runs (.defaults names :: Γ))) es es') :
    Forall₂ (EntryAlike (R.runs Γ)) es es' := by
  rwa [R.runs_cons, Scope.hides, Runs.hide_nil] at hes

mutual

/-- Within some scopes a node is written as the routed one is, wherever that was read. -/
lemma lower_route (R : Routing) : ∀ (n : Node) (Γ : List Scope) (pos : Position),
    (lower n).Alike pos (R.runs Γ) (lower (route R.routed Γ pos n).unplaced)
  | .number .., _, _ | .string .., _, _ | .boolean .., _, _ | .null .., _, _
  | .identifier .., _, _ => .ofExpr (.pure (.text _))
  | .template _ parts, Γ, _ => by
    have hp := lowerParts_route R parts Γ
    exact .ofExpr (template_alike hp)
  | .binary _ _ left right, Γ, _ => by
    have hl := lowered_route R left Γ .expression
    have hr := lowered_route R right Γ .expression
    exact .ofExpr ((operand_alike hl (·.looseOperand)).bind fun hl =>
      (operand_alike hr (·.looseOperand)).bind fun hr =>
        .done (by abel) (((((hl.before _).after _).after _).after _).append hr |>.after _))
  | .unary _ _ n, Γ, _ => by
    have hn := lowered_route R n Γ .expression
    exact .ofExpr ((operand_alike hn (·.looseSigned)).bindPure fun hcode => hcode.before _)
  | .call _ callee arguments, Γ, _ => by
    have hc := lowered_route R callee Γ .expression
    have ha := lowerList_route R arguments Γ .expression
    exact .ofExpr (call_alike hc ha)
  | .member _ obj property computed index, Γ, _ => by
    have ho := lowered_route R obj Γ .expression
    have hi := lowerOption_route R index Γ .expression
    exact .ofExpr (member_alike property computed ho hi)
  | .assign p target value, Γ, pos => by
    have ht := lowered_route R target Γ .expression
    have hv := lowered_route R value Γ .expression
    cases hname : bareName? target with
    | none =>
      rw [route_assign _ Γ pos p hname]
      exact .ofExpr (assignment_target_alike hname ht hv)
    | some x =>
      obtain ⟨q, rfl⟩ := eq_identifier_of_bareName hname
      exact .ofExpr (assignment_route R q x _ hv)
  | .arrow _ params (.block body), Γ, _ => by
    have hp := lowerParams_route R params (.defaults (params.map (·.name)) :: Γ)
    have hb := R.block (lowerList_route R body (_ :: .params (params.map (·.name)) :: Γ) .statement)
    rw [R.runs_params] at hb
    exact .ofExpr (arrowFunction_alike (R.defaults hp) (.block hb))
  | .arrow _ params (.value body), Γ, _ => by
    have hp := lowerParams_route R params (.defaults (params.map (·.name)) :: Γ)
    have hb := lowered_route R body (.params (params.map (·.name)) :: Γ) .expression
    rw [R.runs_params] at hb
    exact .ofExpr (arrowFunction_alike (R.defaults hp) (.value hb))
  | .array _ elements, Γ, _ => by
    have he := lowerList_route R elements Γ .expression
    exact .ofExpr ((inOrder_map he fun hn => hn.forms.expr).bindPure fun hcodes =>
      ((hcodes.intercalate _).before _).after _)
  | .object _ properties, Γ, _ => by
    have hp := lowerEntries_route R properties Γ
    exact .ofExpr (objectLiteral_alike hp)
  | .conditional _ condition consequent alternate, Γ, _ => by
    have hc := lowered_route R condition Γ .expression
    have hy := lower_route R consequent Γ .expression
    have hn := lower_route R alternate Γ .expression
    exact .ofExpr ((operand_alike hc (·.looseOperand)).bind fun hc =>
      hy.expr.bind fun hy => hn.expr.bind fun hn =>
        .done (by abel) ((((hc.before _).after _).append hy).after _ |>.append hn |>.after _))
  | .pipe _ left right, Γ, _ => by
    have hl := lower_route R left Γ .expression
    have hr := lowered_route R right Γ .expression
    exact .ofExpr ((operand_alike hr (·.looseCallee)).bind fun hr =>
      hl.expr.bind fun hl => .done (by abel) ((hr.after _).append hl |>.after _))
  | .use _ name props _ _, Γ, _ => by
    have hcode := instanceCode_alike name (lowerEntries_route R props Γ)
    exact (Forms.Alike.ofExpr hcode).withChild fun hv => hcode.bindPure fun hcode =>
      .single ((hv.append (by decide) hcode).after _)
  | .element _ tag attributes children _, Γ, _ => by
    have hlines {v v' : String} (hv : Named (R.runs Γ).ahead v v') := elementLines_alike tag
      (lowerEntries_route R attributes Γ) (lowerList_route R children Γ .child) hv
    exact (Forms.Alike.ofExpr (elementExpr_alike hlines)).withChild hlines
  | .text .., _, _ => (Forms.Alike.ofExpr (unknown_alike rfl)).withChild
    fun hv => .pure (.single ((hv.append (by decide) (.text _)).after _))
  | .interpolation _ value, Γ, _ => by
    have hv := lower_route R value Γ .expression
    exact (Forms.Alike.ofExpr (unknown_alike rfl)).withChild fun hparent =>
      hv.expr.bindPure fun hcode => .single ((hparent.append (by decide) hcode).after _)
  | .ifElse _ condition consequent none, Γ, pos => by
    have hc := lowered_route R condition Γ .expression
    have hy := lowerList_route R consequent (.ofBlock pos consequent :: Γ) pos.inner
    refine .ofBoth rfl (fun hpos => ?_) fun hpos {v v'} hv => ?_ <;> subst hpos
    · exact conditional_alike hc (R.block hy) .none
    · exact childConditional_alike hc (R.children hy) .none hv
  | .ifElse _ condition consequent (some alternate), Γ, pos => by
    have hc := lowered_route R condition Γ .expression
    have hy := lowerList_route R consequent (.ofBlock pos consequent :: Γ) pos.inner
    have ha := lowerList_route R alternate (.ofBlock pos alternate :: Γ) pos.inner
    refine .ofBoth rfl (fun hpos => ?_) fun hpos {v v'} hv => ?_ <;> subst hpos
    · exact conditional_alike hc (R.block hy) (.some (R.block ha))
    · exact childConditional_alike hc (R.children hy) (.some (R.children ha)) hv
  | .forEach _ name iterable body, Γ, pos => by
    have hi := lowered_route R iterable Γ .expression
    have hb := lowerList_route R body (.ofBlock pos body :: .loop name :: Γ) pos.inner
    refine .ofBoth rfl (fun hpos => ?_) fun hpos {v v'} hv => ?_ <;> subst hpos
    · have hbody := R.block hb
      rw [R.runs_cons] at hbody
      exact forLoop_alike name hi hbody
    · have hbody := R.children hb
      rw [R.runs_cons] at hbody
      exact childLoop_alike name hi hbody hv
  | .returning _ none, _, _ => .ofStmt rfl (.pure (.text _))
  | .returning _ (some value), Γ, _ => by
    have hv := lower_route R value Γ .expression
    exact .ofStmt rfl (hv.expr.bindPure fun hcode => (hcode.before _).after _)
  | .expression _ value, Γ, _ => by
    have hv := lower_route R value Γ .expression
    simp only [route, Node.unplaced, lowerWith]
    exact .ofStmt rfl (hv.expr.bindPure fun hcode => hcode.after _)
  | .block _ body, Γ, _ => by
    have hb := lowerList_route R body (.block body :: Γ) .statement
    simp only [route, Node.unplaced, lowerWith]
    exact .ofStmt rfl (block_alike (R.block hb))
  | .component _ name params body, Γ, _ => by
    -- the states around it do not matter, and no assignment in it is routed
    have hp := lowerParams_route (.none (R.runs Γ).ahead (stateNamesOf (lowerList body))) params []
    have hb := lowerMembers_route (.none (R.runs Γ).ahead (stateNamesOf (lowerList body))) body
    obtain ⟨-, -, hlist, -, -, hparams, -⟩ := route_none (d := (Routing.none _ _).routed)
      fun _ _ => rfl
    rw [hparams] at hp
    rw [hlist] at hb
    simp only [Routing.none, visible_nil] at hp hb
    simp only [route, Node.unplaced, lowerWith]
    exact .ofStmt rfl (component_alike name hp hb)
  | .function _ name params _ body, Γ, _ => by
    have hp := lowerParams_route R params (.params (params.map (·.name)) :: Γ)
    have hb := R.block (lowerList_route R body (_ :: .params (params.map (·.name)) :: Γ) .statement)
    rw [R.runs_params] at hp hb
    simp only [route, Node.unplaced, lowerWith]
    exact .ofStmt rfl (function_alike name hp hb)
  | .binding _ _ _ _ value, Γ, _ => by
    have hv := lower_route R value Γ .expression
    simp only [route, Node.unplaced, lowerWith]
    exact .ofStmt rfl (hv.expr.bindPure fun hcode => (hcode.before _).after _)
  | .state _ name _ value, Γ, _ => by
    have hv := lowered_route R value Γ .expression
    simp only [route, Node.unplaced, lowerWith]
    exact (Forms.Alike.ofStmt rfl (hv.forms.expr.bindPure fun hcode =>
      (hcode.before _).after _)).withCell (stateCell_alike name hv)
  | .effect _ _ body, Γ, _ => by
    have hb := lowerList_route R body (.block body :: Γ) .statement
    simp only [route, Node.unplaced, lowerWith]
    exact .ofStmt rfl (effect_alike (R.block hb))
  | .style _ name properties, Γ, _ => by
    have hp := lowerEntries_route R properties Γ
    simp only [route, Node.unplaced, lowerWith]
    exact .ofStmt rfl ((style_alike name hp).andThen fun _ _ => .pure .nil)
  | .exports _ specifiers declaration, Γ, _ => by
    have hd := lowerOption_route R declaration Γ .statement
    simp only [route, Node.unplaced, lowerWith]
    exact .ofStmt rfl (exportCode_alike specifiers hd)
  | .imports .., _, _ => .ofStmt rfl (.pure (.text _))
  | .bare .., _, _ | .program .., _, _ => .ofExpr (unknown_alike (sameHead_unplaced _).formName)

lemma lowered_route (R : Routing) (n : Node) (Γ : List Scope) (pos : Position) :
    Lowered.Alike pos (R.runs Γ) (n, lower n)
      ((route R.routed Γ pos n).unplaced, lower (route R.routed Γ pos n).unplaced) :=
  ⟨(sameHead_route R.routed Γ pos n).trans (sameHead_unplaced _), lower_route R n Γ pos⟩

lemma lowerList_route (R : Routing) : ∀ (ns : List Node) (Γ : List Scope) (pos : Position),
    Forall₂ (Lowered.Alike pos (R.runs Γ)) (lowerList ns)
      (lowerList (Node.unplacedList (routeList R.routed Γ pos ns)))
  | [], _, _ => .nil
  | n :: ns, Γ, pos => .cons (lowered_route R n Γ pos) (lowerList_route R ns Γ pos)

/-- The nodes of a component's body. -/
lemma lowerMembers_route (R : Routing) : ∀ ns : List Node,
    Forall₂ (MemberAlike (R.runs [])) (lowerList ns)
      (lowerList (Node.unplacedList (routeList R.routed [] .statement ns)))
  | [] => .nil
  | n :: ns => by
    refine .cons ⟨lowered_route R n [] .statement, fun hn => ?_, fun hn => ?_⟩
      (lowerMembers_route R ns)
    · have hchild := lower_route R n [] .child
      rwa [route_markup R.routed [] .child .statement hn] at hchild
    · cases n with
      | style _ name properties =>
        have hp := lowerEntries_route R properties []
        simp only [route, Node.unplaced, lowerWith]
        exact (style_alike name hp).andThen fun _ _ => .pure rfl
      | _ => cases hn

lemma lowerOption_route (R : Routing) : ∀ (n : Option Node) (Γ : List Scope) (pos : Position),
    Option.Rel (Lowered.Alike pos (R.runs Γ)) (lowerOption n)
      (lowerOption (Node.unplacedOption (routeOption R.routed Γ pos n)))
  | none, _, _ => .none
  | some n, Γ, pos => .some (lowered_route R n Γ pos)

lemma lowerEntries_route (R : Routing) : ∀ (es : List (Entry Node)) (Γ : List Scope),
    Forall₂ (EntryAlike (R.runs Γ)) (lowerEntries es)
      (lowerEntries (Node.unplacedEntries (routeEntries R.routed Γ es)))
  | [], _ => .nil
  | ⟨_, value⟩ :: es, Γ =>
    .cons ⟨rfl, lowerOption_route R value Γ .expression⟩ (lowerEntries_route R es Γ)

lemma lowerParams_route (R : Routing) : ∀ (ps : List (Param Node)) (Γ : List Scope),
    Forall₂ (EntryAlike (R.runs Γ)) (lowerParams ps)
      (lowerParams (Node.unplacedParams (routeParams R.routed Γ ps)))
  | [], _ => .nil
  | ⟨_, _, value⟩ :: ps, Γ =>
    .cons ⟨rfl, lowerOption_route R value Γ .expression⟩ (lowerParams_route R ps Γ)

lemma lowerParts_route (R : Routing) : ∀ (ps : List (Part Node)) (Γ : List Scope),
    Forall₂ (PartAlike (R.runs Γ)) (lowerParts ps)
      (lowerParts (Node.unplacedParts (routeParts R.routed Γ ps)))
  | [], _ => .nil
  | .text s :: ps, Γ => .cons (.text s) (lowerParts_route R ps Γ)
  | .hole n :: ps, Γ => .cons (.hole (lowered_route R n Γ .expression)) (lowerParts_route R ps Γ)

end

end Lower

/-! ### Trees without places -/

section Places

variable (d : ℕ) (S : List String)

/-- Each form of a node is the same without places. -/
lemma lower_unplaced (n : Node) (pos : Position) :
    (lower n).Alike pos ⟨d, S, S⟩ (lower n.unplaced) := by
  have h := lower_route (.none d S) n [] pos
  rw [(route_none (d := (Routing.none d S).routed) fun _ _ => rfl).1] at h
  simpa only [Routing.none, visible_nil] using h

lemma lowerList_unplaced (ns : List Node) (pos : Position) :
    Forall₂ (Lowered.Alike pos ⟨d, S, S⟩) (lowerList ns) (lowerList (Node.unplacedList ns)) := by
  have h := lowerList_route (.none d S) ns [] pos
  rw [(route_none (d := (Routing.none d S).routed) fun _ _ => rfl).2.2.1] at h
  simpa only [Routing.none, visible_nil] using h

lemma componentCode_unplaced (name : String) (params : List (Param Node)) (body : List Node) :
    Codes ⟨d, S, S⟩ (componentCode name (lowerParams params) (lowerList body))
      (componentCode name (lowerParams (Node.unplacedParams params))
        (lowerList (Node.unplacedList body))) := by
  have hp := lowerParams_route (.none d S) params []
  have hb := lowerMembers_route (.none d S) body
  obtain ⟨-, -, hlist, -, -, hparams, -⟩ := route_none (d := (Routing.none d S).routed)
    fun _ _ => rfl
  rw [hparams] at hp
  rw [hlist] at hb
  simpa only [Routing.none, visible_nil] using componentCode_alike name hp hb

/-- A node is written the same but for the numbers of elements. -/
lemma lower_self (n : Node) (pos : Position) : (lower n).Alike pos ⟨d, S, S⟩ (lower n) := by
  have h := lower_unplaced d S n pos
  have h' := lower_unplaced 0 S n pos
  exact ⟨h.expr.through (h'.expr.sameCode Renamed.eq),
    fun hpos => (h.stmt hpos).through ((h'.stmt hpos).sameCode Renamed.eq),
    fun hpos _ _ hv => (h.child hpos hv).through ((h'.child hpos (.fixed _)).sameCode Each.eq),
    fun hpos => (h.cell hpos).through ((h'.cell hpos).sameCode Renamed.eq)⟩

end Places

/-- With nothing to decide, an assignment to a name is written as such. -/
lemma assignment_name (p q : Option Place) (x : String) (value : Node) :
    SameCode [] [] (lower (.assign p (.identifier q x) value)).expr
      ((fun code => x ++ " = " ++ code) <$> (lower value).expr) := by
  rw [map_eq_pure_bind]
  refine Paired.sameCode (V := Renamed 0) Renamed.eq
    ((lower_self 0 [] value .expression).expr.bind fun hcode => .get_bind_left fun hg => ?_)
  rw [hg.left]
  exact .done (by abel) (hcode.before _)

/-! ### Components -/

lemma hides_subset_binds (s : Scope) : s.hides ⊆ s.binds := by
  intro x hx
  cases s with
  | params => exact hx
  | loop => exact hx
  | defaults => cases hx
  | children => cases hx
  | block =>
    obtain ⟨n, hn, hname⟩ := mem_filterMap.1 hx
    refine mem_filterMap.2 ⟨n, hn, ?_⟩
    cases n with
    | binding => exact hname
    | function => exact hname
    | _ => cases hname

/-- The code of a component in which the assignments to states are made explicit. -/
def routedComponent (names : Scope → List String) (name : String) (params : List (Param Node))
    (body : List Node) : Gen String :=
  let routed := isRouted names (body.filterMap stateName?)
  componentCode name (lowerParams (routeParams routed [] params))
    (lowerList (routeList routed [] .statement body))

/-- An assignment in a component is one to the state just if its name is a state of the component
that no scope in between hides. As the generator hides less than the scopes bind, a name bound anew
may still be taken for the state; the code is the intended one just if no assignment is to such a
name. -/
theorem component_state_writes (place : Option Place) (name : String) (params : List (Param Node))
    (body : List Node) (T : List String) :
    let S := body.filterMap stateName?
    SameCode T [] (lower (.component place name params body)).stmt
        (routedComponent Scope.hides name params body) ∧
      (∀ p q x value, SameCode [] [] (lower (.assign p (.identifier q x) value)).expr
        ((fun code => x ++ " = " ++ code) <$> (lower value).expr)) ∧
      (∀ p q x value, (lower (.assign p (stateMember q x) value)).expr =
        (fun code => "__state." ++ x ++ " = " ++ code) <$> (lower value).expr) ∧
      (∀ s : Scope, s.hides ⊆ s.binds) ∧
      (routeList (isRouted Scope.hides S) [] .statement body =
          routeList (isRouted Scope.binds S) [] .statement body ↔
        AgreeOn (isRouted Scope.hides S) (isRouted Scope.binds S)
          (writesList [] .statement body)) := by
  intro S
  refine ⟨?_, assignment_name, fun p q x value => ?_, hides_subset_binds,
    routeList_eq_iff [] .statement body⟩
  · have hleft := componentCode_alike name (lowerParams_route (.hidden S) params [])
      (lowerMembers_route (.hidden S) body)
    have hright := componentCode_unplaced 0 [] name (routeParams (isRouted Scope.hides S) [] params)
      (routeList (isRouted Scope.hides S) [] .statement body)
    simp only [Routing.hidden, visible_nil] at hleft
    simp only [lowerWith, component, Forms.ofStmt, stateNamesOf_lowerListWith]
    exact .withStateNames_left ((hleft.through (hright.sameCode Renamed.eq)).sameCode Renamed.eq)
  · simp only [lowerWith, Forms.ofExpr]
    exact assignment_stateMember q x (value, lower value)

-- a state in the block of a function, and an assignment behind it
example : ¬ AgreeOn (isRouted Scope.hides ["x"]) (isRouted Scope.binds ["x"])
    (writes [] .statement (.function none "f" [] none [.state none "x" none (.null none),
      .expression none (.assign none (.identifier none "x") (.null none))])) := by
  decide

end UiScript.Script
