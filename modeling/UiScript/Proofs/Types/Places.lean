import UiScript.Proofs.Syntax.Reading
import UiScript.Proofs.Types.Coupled

/-!
# Places do not matter to the checker

The checker hands places on to its diagnostics and never looks at them. So a node has the same types
and diagnostics wherever every name means the same, and without its places it has the same types
and, apart from places, the same diagnostics.
-/

namespace UiScript.Types

open List

/-! ### Values -/

mutual

/-- A variable or a state, perhaps in exports. -/
def declaresValue : Node → Bool
  | .binding .. | .state .. => true
  | .exports _ _ declaration => exportsValue declaration
  | _ => false

def exportsValue : Option Node → Bool
  | none => false
  | some n => declaresValue n

end

/-! ### Nodes without places -/

/-- The written types of parameters have no places. -/
lemma paramTypes_unplaced (ps : List (Param Node)) :
    paramTypes (ps.map Node.unplacedParam) = paramTypes ps := by
  rw [paramTypes, List.map_map]
  rfl

/-- What may be assigned to is seen in the form of a node. -/
lemma isTarget_unplaced (n : Node) : isTarget n = isTarget n.unplaced := by
  cases n with
  | arrow _ _ body => cases body <;> rfl
  | _ => rfl

/-- A function is registered by its name and its types. -/
lemma registerFunction_unplaced (n : Node) :
    registerFunction n = registerFunction n.unplaced := by
  cases n with
  | function =>
    rw [Node.unplaced, registerFunction, registerFunction, Node.unplacedParams_eq_map,
      paramTypes_unplaced]
  | arrow _ _ body => cases body <;> rfl
  | _ => rfl

/-! ### Nodes that can be read -/

variable {placed : Bool} {n : Node} {ns : List Node}

/-- The judgements of a node depend on the meaning of names only. They are compared with its own, or
with those of the node without places. -/
def Steady (placed : Bool) (n : Node) : Prop :=
  (judge n).Alike ⟨placed, placed⟩ (declaresValue n) (judge (cond placed n n.unplaced))

/-- A node and its judgements, as the rules for lists of nodes want them. -/
lemma Steady.alike (h : Steady placed n) : Judged.Alike ⟨placed, placed⟩ (n, judge n)
    (cond placed n n.unplaced, judge (cond placed n n.unplaced)) := by
  cases placed with
  | true => exact ⟨fun _ => rfl, rfl, rfl, h.infer, h.check.loose⟩
  | false => exact ⟨nofun, isTarget_unplaced n, registerFunction_unplaced n, h.infer, h.check.loose⟩

/-- Nodes one by one, each compared with itself or with itself without places. -/
lemma alike_list (h : ∀ n ∈ ns, Steady placed n) : Forall₂ (Judged.Alike ⟨placed, placed⟩)
    (judgeList ns) (judgeList (cond placed ns (Node.unplacedList ns))) := by
  induction ns with
  | nil => cases placed <;> exact .nil
  | cons n ns ih =>
    obtain ⟨hn, hns⟩ := forall_mem_cons.mp h
    cases placed <;> exact .cons hn.alike (ih hns)

lemma alike_option {m : Option Node} (h : ∀ v ∈ m, Steady placed v) :
    Option.Rel (Judged.Alike ⟨placed, placed⟩) (judgeOption m)
      (judgeOption (cond placed m (Node.unplacedOption m))) := by
  cases m with
  | none => cases placed <;> exact .none
  | some v => cases placed <;> exact .some (h v rfl).alike

lemma alike_entries {es : List (Entry Node)} (h : ∀ e ∈ es, ∀ v ∈ e.value, Steady placed v) :
    Forall₂ (EntryAlike ⟨placed, placed⟩) (judgeEntries es)
      (judgeEntries (cond placed es (Node.unplacedEntries es))) := by
  induction es with
  | nil => cases placed <;> exact .nil
  | cons e es ih =>
    obtain ⟨he, hes⟩ := forall_mem_cons.mp h
    cases placed <;> exact .cons ⟨rfl, alike_option he⟩ (ih hes)

lemma alike_params {ps : List (Param Node)} (h : ∀ p ∈ ps, ∀ v ∈ p.default, Steady placed v) :
    Forall₂ (ParamAlike ⟨placed, placed⟩) (judgeParams ps)
      (judgeParams (cond placed ps (Node.unplacedParams ps))) := by
  induction ps with
  | nil => cases placed <;> exact .nil
  | cons p ps ih =>
    obtain ⟨hp, hps⟩ := forall_mem_cons.mp h
    cases placed <;> exact .cons ⟨rfl, rfl, alike_option hp⟩ (ih hps)

lemma alike_parts {parts : List (Part Node)} (h : ∀ e, .hole e ∈ parts → Steady placed e) :
    Forall₂ (Coupled ⟨placed, placed⟩) (judgeParts parts)
      (judgeParts (cond placed parts (Node.unplacedParts parts))) := by
  induction parts with
  | nil => cases placed <;> exact .nil
  | cons part parts ih =>
    have ih := ih fun e he => h e (mem_cons_of_mem _ he)
    cases part with
    | text => cases placed <;> exact ih
    | hole e => cases placed <;> exact .cons (h e mem_cons_self).infer ih

/-- Markup declares nothing. -/
lemma declaresValue_of_child (h : Syntax.Grammatical .child n) : declaresValue n = false := by
  cases h with
  | element | use | text | interpolation | ifElse | forEach => rfl

/-- Children are checked one after the other, and none of them declares anything. -/
lemma alike_children (hread : ∀ n ∈ ns, Syntax.Grammatical .child n)
    (h : ∀ n ∈ ns, Steady placed n) : Children ⟨placed, placed⟩ (judgeList ns)
      (judgeList (cond placed ns (Node.unplacedList ns))) := by
  induction ns with
  | nil => cases placed <;> exact .nil
  | cons n ns ih =>
    obtain ⟨hn, hns⟩ := forall_mem_cons.mp h
    obtain ⟨hchild, hchildren⟩ := forall_mem_cons.mp hread
    have hcheck := hn.check
    rw [declaresValue_of_child hchild] at hcheck
    cases placed <;> exact .cons hcheck (ih hchildren hns)

/-- The two comparisons have the same cases: the lemmas about checks take the node of the second run
as it comes. -/
theorem steady_of_grammatical (placed : Bool) {pos : Syntax.Position}
    (h : Syntax.Grammatical pos n) : Steady placed n := by
  have here {place : Option Place} : placed → place = cond placed place none :=
    fun hplaced => hplaced ▸ rfl
  -- one induction on the grammar serves both comparisons
  cases placed <;> induction h with
  | identifier => exact .ofExpr (.lookup here _)
  | number | string | boolean | null => exact .ofExpr (.pure _)
  | template _ _ _ _ ih => exact .ofExpr (Coupled.inOrder (alike_parts ih)).bind_pure
  | binary _ _ _ hl hr => exact .ofExpr (inferBinary_coupled here _ hl.alike hr.alike)
  | unary _ _ h => exact .ofExpr (inferUnary_coupled here _ h.alike)
  | call _ _ hcallee harguments =>
    exact .ofExpr (inferCall_coupled here hcallee.alike (alike_list harguments))
  | member _ _ h => exact .ofExpr (inferMember_coupled _ _ h.alike .none)
  | index _ _ h hindex => exact .ofExpr (inferMember_coupled _ _ h.alike (.some hindex.alike))
  | assign _ _ ht hv => exact .ofExpr (inferAssign_coupled here ht.alike hv.alike)
  | arrow _ _ _ hps hbody =>
    exact .ofExpr (inferArrow_coupled (alike_params hps) (alike_list hbody))
  | arrowValue _ _ _ hps hbody =>
    exact .ofExpr (inferArrow_value_coupled (alike_params hps) hbody.alike)
  | array _ h => exact .ofExpr (inferArray_coupled (alike_list h))
  | object _ _ _ h => exact .ofExpr (inferObject_coupled (alike_entries h))
  | conditional _ _ _ hc hyes hno =>
    exact .ofExpr (hc.infer.bind fun _ => hyes.infer.bind fun _ => hno.infer.bind_pure)
  | pipe _ _ hl hr =>
    -- the type of a pipe is the result of its function, if it has one
    refine .ofExpr (hl.infer.bind fun _ => hr.infer.bind fun t => ?_)
    cases t <;> exact .pure _
  | element _ _ _ _ hread _ hvalues hchildren =>
    exact .ofExpr (checkElement_coupled (alike_entries hvalues) (alike_children hread hchildren))
  | use _ _ _ _ _ hread _ hvalues hchildren =>
    exact .ofExpr
      (checkInstance_coupled here _ (alike_entries hvalues) (alike_children hread hchildren))
  | text | imports => exact .ofStmt (.pure _)
  | interpolation _ h | expression _ h => exact .ofStmt h.infer.map
  | @ifElse _ _ _ _ alternate _ _ _ _ hc hyes hno =>
    refine .ofStmt (checkIf_coupled here hc.alike (alike_list hyes) ?_)
    cases alternate with
    | none => exact .none
    | some ms => exact .some (alike_list (hno ms rfl))
  | forEach _ _ _ _ hiterable hbody =>
    exact .ofStmt (checkFor_coupled (alike_list hbody) _ hiterable.alike)
  | returning _ h => exact .ofStmt (checkReturn_coupled here (alike_option h))
  | block _ h => exact .ofStmt (checkBlock_coupled (alike_list h))
  | component _ _ _ _ hps hbody =>
    exact .ofStmt (checkComponent_coupled (alike_list hbody) (alike_params hps))
  | function _ _ _ _ hps hbody =>
    exact .ofStmt (checkFunction_coupled (alike_list hbody) _ _ (alike_params hps))
  | binding _ _ h | state _ _ h => exact .ofStmt (checkBinding_coupled here _ _ _ h.alike)
  | effect _ h =>
    exact .ofStmt ((Coupled.inOrder_same _ fun d => .lookup here d).bind fun _ =>
      (checkBlock_coupled (alike_list h)).withResult .any)
  | style _ _ _ h => exact .ofStmt (inferEntries_coupled (alike_entries h)).bind_pure
  | @exports place specifiers declaration _ _ h =>
    cases declaration with
    | none => exact .ofStmt (Coupled.inOrder_same _ fun s => .lookup here s).bind_pure
    | some d => exact .ofStmt (h d rfl).check

lemma unwrapped_unplaced (n : Node) : unwrapped n.unplaced = (unwrapped n).unplaced := by
  cases n with
  | exports _ _ declaration => cases declaration <;> rfl
  | arrow _ _ body => cases body <;> rfl
  | _ => rfl

/-- Places do not count for what a program declares. -/
lemma register_unplaced (n : Node) : register n.unplaced = register n := by
  unfold register
  rw [unwrapped_unplaced]
  generalize unwrapped n = n
  cases n with
  | component _ name params =>
    have hprops : (params.map Node.unplacedParam).map (fun p => (p.name, Ty.ofWritten p.written)) =
        params.map fun p => (p.name, Ty.ofWritten p.written) := by
      rw [List.map_map]
      rfl
    simp only [Node.unplaced, Node.unplacedParams_eq_map, hprops]
  | function => exact (registerFunction_unplaced _).symm
  | arrow _ _ body => cases body <;> rfl
  | _ => rfl

end UiScript.Types
