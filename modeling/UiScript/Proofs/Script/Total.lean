import UiScript.Proofs.Script.Concur
import UiScript.Proofs.Syntax.Outline
import UiScript.Proofs.Syntax.Sourced

/-!
# Generation is total on trees that can be read

A tree that can be read is written in the same way whatever the fallback is, so the fallback is
never used. Its code closes no markup. Names of components are in it only if there are components,
handlers of events or tokens with such a name.
-/

namespace UiScript.Script

open List

attribute [local simp] String.append_assoc

variable {k : Mark} {R : String → Prop} {n : Node} {s : String} {pos : Syntax.Position}

/-! ### Forms by position -/

namespace Forms.Fit

variable {pos : Syntax.Position} {code x : Fallback → Gen String}
  {lines : Fallback → String → Gen (List String)}

lemma ofExpr (h : CodeFree k R code) : Forms.Fit k R .expression fun u => Forms.ofExpr (code u) :=
  { expr := fun _ => h, stmt := nofun, cell := nofun, child := fun hpos => absurd rfl hpos }

lemma ofStmt (h : CodeFree k R code) :
    Forms.Fit k R .statement fun u => Forms.ofStmt (x u) (code u) :=
  { expr := nofun
    stmt := fun _ => h
    cell := fun _ _ => h
    child := fun _ _ _ => h.map fun _ hcode => hcode.lines }

/-- A node that stands among statements and among children. -/
lemma ofBoth (hpos : pos ≠ .expression) (h : CodeFree k R code)
    (hlines : ∀ parent, Free k parent → LinesFree k R fun u => lines u parent) :
    Forms.Fit k R pos fun u => { Forms.ofStmt (x u) (code u) with child := lines u } :=
  { expr := fun hexpr => absurd hexpr hpos
    stmt := fun _ => h
    cell := fun _ _ => h
    child := fun _ => hlines }

/-- Markup stands anywhere. -/
lemma ofMarkup (h : CodeFree k R code)
    (hlines : ∀ parent, Free k parent → LinesFree k R fun u => lines u parent) :
    Forms.Fit k R pos fun u => { Forms.ofExpr (code u) with child := lines u } :=
  have hstmt : CodeFree k R fun u => (· ++ ";") <$> code u :=
    h.map fun _ hcode => (Free.append_closing (by decide)).mpr hcode
  { expr := fun _ => h, stmt := fun _ => hstmt, cell := fun _ _ => hstmt, child := fun _ => hlines }

/-- A node that stands among children only. -/
lemma ofChild (hlines : ∀ parent, Free k parent → LinesFree k R fun u => lines u parent) :
    Forms.Fit k R .child fun u => Forms.ofChild (x u) (lines u) :=
  { expr := nofun, stmt := nofun, cell := nofun, child := fun _ => hlines }

end Forms.Fit

/-! ### Nodes -/

namespace Fits

variable {pos : Syntax.Position} {p : Option Place} {ns : List Node} {es : List (Entry Node)}
  {ps : List (Param Node)} {name : String} {n a b : Node}

/-- An operator may be a part of the mark, but there are blanks around it. -/
lemma binary {op : String} (hop : op ∈ Syntax.binaryOperators) (ha : Fits k R .expression a)
    (hb : Fits k R .expression b) : Fits k R .expression (.binary p op a b) := by
  have hfree : ∀ op ∈ Syntax.binaryOperators, isFree op := by decide
  refine .ofExpr ((operand_fits ha).andThen fun l hl => (operand_fits hb).bindPure fun r hr => ?_)
  simp (disch := decide) [hl, hr, Free.of_isFree (hfree op hop)]

lemma unary {op : String} (hop : op ∈ Syntax.unaryOperators) (h : Fits k R .expression n) :
    Fits k R .expression (.unary p op n) := by
  have hopening : ∀ op ∈ Syntax.unaryOperators, isOpening op := by decide
  exact .ofExpr ((operand_fits h).bindPure fun _ hcode =>
    (Free.opening_append (hopening op hop)).mpr hcode)

lemma member (h : Fits k R .expression n) (hname : Free k name) :
    Fits k R .expression (.member p n name false none) := by
  refine .ofExpr ((operand_fits h).bindPure fun _ hcode => ?_)
  simp (disch := decide) [hcode, hname]

lemma index (ha : Fits k R .expression a) (hb : Fits k R .expression b) :
    Fits k R .expression (.member p a name true (some b)) := by
  refine .ofExpr ((operand_fits ha).andThen fun _ hobj => (hb.expr rfl).bindPure fun _ hindex => ?_)
  simp (disch := decide) [hobj, hindex]

lemma array (h : ∀ n ∈ ns, Fits k R .expression n) :
    Fits k R .expression (.array p ns) := by
  refine .ofExpr ((codes_fit h).bindPure fun _ hcodes => ?_)
  simp (disch := decide) [Free.commaSeparated hcodes]

lemma conditional {c : Node} (hc : Fits k R .expression c) (ha : Fits k R .expression a)
    (hb : Fits k R .expression b) : Fits k R .expression (.conditional p c a b) := by
  refine .ofExpr ((operand_fits hc).andThen fun _ hc => (ha.expr rfl).andThen fun _ hyes =>
    (hb.expr rfl).bindPure fun _ hno => ?_)
  simp (disch := decide) [hc, hyes, hno]

lemma pipe (ha : Fits k R .expression a) (hb : Fits k R .expression b) :
    Fits k R .expression (.pipe p a b) := by
  refine .ofExpr ((operand_fits hb).andThen fun _ hcallee =>
    (ha.expr rfl).bindPure fun _ hargument => ?_)
  simp (disch := decide) [hcallee, hargument]

lemma element {selfClosing : Bool} (htag : Free k name) (hnames : ∀ e ∈ es, Free k e.name)
    (hevents : ∀ e ∈ es, e.name.startsWith "@" → k ≠ .render)
    (he : ∀ e ∈ es, ∀ v ∈ e.value, Fits k R .expression v)
    (h : ∀ n ∈ ns, Fits k R .child n) : Fits k R pos (.element p name es ns selfClosing) := by
  have hlines (parent : String) (hparent : Free k parent) :=
    elementLines_fit htag hnames hevents he h hparent
  exact .ofMarkup (elementExpr_fits hlines) hlines

lemma use {selfClosing : Bool} (hname : Free k name) (hkeys : ∀ e ∈ es, Free k e.name)
    (he : ∀ e ∈ es, ∀ v ∈ e.value, Fits k R .expression v) :
    Fits k R pos (.use p name es ns selfClosing) := by
  have hcode := instanceCode_fits hname hkeys he
  exact .ofMarkup hcode fun parent hparent => hcode.bindPure fun _ hcode =>
    forall_mem_singleton.mpr (free_appendChild hparent hcode)

lemma text (h : NameFree k s) : Fits k R .child (.text p s) := by
  refine .ofChild fun _ hparent => .value (forall_mem_singleton.mpr ?_)
  simp (disch := decide) [hparent, Free.stringLiteral h]

lemma interpolation (h : Fits k R .expression n) :
    Fits k R .child (.interpolation p n) := by
  refine .ofChild fun parent hparent => (h.expr rfl).bindPure fun _ hcode =>
    forall_mem_singleton.mpr ?_
  simp (disch := decide) [hparent, hcode]

lemma returning {value : Option Node} (h : ∀ v ∈ value, Fits k R .expression v) :
    Fits k R .statement (.returning p value) := by
  cases value with
  | none => exact .ofStmt (.value (.of_isFree (by decide)))
  | some v =>
    refine .ofStmt (((h v rfl).expr rfl).bindPure fun _ hcode => ?_)
    simp (disch := decide) [hcode]

lemma binding {mutable : Bool} {written : Option TypeExpr} (hname : Free k name)
    (h : Fits k R .expression n) :
    Fits k R .statement (.binding p name mutable written n) := by
  have hword : isOpening (if mutable then "let " else "const ") := by cases mutable <;> decide
  refine .ofStmt ((h.expr rfl).bindPure fun _ hcode => ?_)
  simp (disch := first | exact hword | decide) [hname, hcode]

lemma state {written : Option TypeExpr} (hname : Free k name) (h : Fits k R .expression n) :
    Fits k R .statement (.state p name written n) := by
  have hlet {code : String} (hcode : Free k code) :
      Free k ("let " ++ name ++ " = " ++ code ++ ";") := by
    simp (disch := decide) [hname, hcode]
  have hstmt := (h.expr rfl).bindPure fun _ hcode => hlet hcode
  refine { expr := fun hpos => absurd hpos (by decide), stmt := fun _ => hstmt,
           cell := fun _ hk => ?_, child := fun _ _ _ => ?_ }
  · subst hk
    exact stateCell_fits hname h
  · exact hstmt.map fun _ hcode => hcode.lines

end Fits

/-! ### What may bring in names -/

def isComponent : Node → Bool
  | .component .. => true
  | _ => false

/-- Markup with the handler of an event. -/
def hasEvent : Node → Bool
  | .element _ _ es _ _ => es.any (·.name.startsWith "@")
  | _ => false

def RuleFits (k : Mark) (R : String → Prop) : Node → Prop
  | .style _ name es => (∀ word ∈ name, Free k word) →
    ∀ lines, Forall₂ (PropertyLine k) es lines → R (styleRule name lines)
  | _ => True

/-- The tree brings in no names of components by itself, and its style rules have the property. -/
def Permits (k : Mark) (R : String → Prop) (n : Node) : Prop :=
  ∀ m ∈ n.outline,
    (isComponent m → k = .closing) ∧ (hasEvent m → k ≠ .render) ∧ RuleFits k R m

namespace Permits

lemma parts (h : Permits k R n) : ∀ m ∈ n.parts, Permits k R m :=
  fun _ hm j hj => h j (Node.mem_outline_of_part hm hj)

lemma pair {a b : Node} (h : ∀ m ∈ [a, b], Permits k R m) : Permits k R a ∧ Permits k R b :=
  ⟨h a mem_cons_self, h b (mem_cons_of_mem _ mem_cons_self)⟩

variable {P : Node → Prop}

lemma defaults {ps : List (Param Node)} (h : ∀ m ∈ ps.filterMap (·.default), Permits k R m)
    (ih : ∀ q ∈ ps, ∀ v ∈ q.default, Permits k R v → P v) : ∀ q ∈ ps, ∀ v ∈ q.default, P v :=
  fun q hq v hv => ih q hq v hv (h v (mem_filterMap.mpr ⟨q, hq, hv⟩))

lemma values {es : List (Entry Node)} (h : ∀ m ∈ es.filterMap (·.value), Permits k R m)
    (ih : ∀ e ∈ es, ∀ v ∈ e.value, Permits k R v → P v) : ∀ e ∈ es, ∀ v ∈ e.value, P v :=
  fun e he v hv => ih e he v hv (h v (mem_filterMap.mpr ⟨e, he, hv⟩))

end Permits

lemma permits_closing (h : ∀ m ∈ n.outline, RuleFits .closing R m) : Permits .closing R n :=
  fun m hm => ⟨fun _ => rfl, nofun, h m hm⟩

/-- Nothing may be asked of the rules. -/
lemma ruleFits_true (n : Node) : RuleFits k (fun _ => True) n := by
  cases n with
  | style => exact fun _ _ _ => trivial
  | _ => trivial

lemma word_of_bareName {L : Token → Prop}
    (h : Syntax.Drawn L pos n) : ∀ name ∈ bareName? n, Syntax.Word L name := by
  cases h with
  | identifier hname =>
    rintro _ ⟨⟩
    exact hname
  | _ => exact nofun

section Drawn

variable {L : Token → Prop} (hL : ∀ t, L t → NameFree k t.value)
include hL

lemma nameFree_valued (h : Syntax.Valued L s) : NameFree k s := by
  obtain ⟨t, ht, rfl⟩ := h
  exact hL t ht

lemma free_word (h : Syntax.Word L s) : Free k s :=
  .of_word h.1 (nameFree_valued hL h.2)

lemma free_label (h : Syntax.Label L s) : Free k s := by
  obtain ⟨hname, words, hwords, hs⟩ := h
  by_cases hk : k = .closing
  · subst hk
    exact .of_notMem (Syntax.notMem_of_isAttributeName (by decide) (by decide) hname)
  · have hjoined : Free k (String.intercalate "-" words) :=
      .intercalate (by decide)
        fun s hs => nameFree_valued hL (hwords s hs) hk
    rcases hs with rfl | rfl
    · exact hjoined
    · exact (Free.opening_append (by decide)).mpr hjoined

lemma nameFree_wording (h : Syntax.Wording L s) : NameFree k s := by
  intro hk
  obtain ⟨words, hwords, rfl⟩ := h
  exact .intercalate (by decide)
    fun s hs => nameFree_valued hL (hwords s hs) hk

lemma nameFree_texts {p : Option Place} {parts : List (Part Node)} (h : Syntax.Filled L p parts) :
    ∀ s, .text s ∈ parts → NameFree k s := by
  intro s hs hk
  obtain ⟨t, ht, -, -, -, hclosed, hfollows⟩ := h
  obtain ⟨seg, hseg, hfollow⟩ := Syntax.exists_of_mem_left hfollows hs
  cases seg with
  | hole => cases hfollow
  | text literal =>
    obtain rfl : s = String.ofList literal := hfollow
    refine (hL t ht hk).of_within ?_
    have hspelling := Syntax.segments_spelling hclosed
    obtain ⟨before, after, hsplit⟩ := append_of_mem hseg
    rw [hsplit, flatMap_append, flatMap_cons] at hspelling
    rw [String.toList_ofList]
    exact ⟨_, _, (append_assoc ..).trans hspelling⟩

/-- A tree that can be read is written in the same way whatever the fallback is. -/
lemma fits_of_drawn (h : Syntax.Drawn L pos n) (hpermits : Permits k R n) : Fits k R pos n := by
  have hparams {ps : List (Param Node)} (h : ∀ q ∈ ps, Syntax.Word L q.name) :
      ∀ q ∈ ps, Free k q.name :=
    fun q hq => free_word hL (h q hq)
  have hbare {pos : Syntax.Position} {n : Node} (h : Syntax.Drawn L pos n) :
      ∀ name ∈ bareName? n, Free k name :=
    fun name hname => free_word hL (word_of_bareName h name hname)
  induction h with
  | identifier hname => exact .ofExpr (.value (free_word hL hname))
  | number => exact .ofExpr (.value (.of_numeral (numeral_numericText _)))
  | string hvalue =>
    obtain ⟨t, ht, -, -, rfl⟩ := hvalue
    exact .ofExpr (.value (.stringLiteral (hL t ht)))
  | @boolean _ value => exact .ofExpr (.value (.of_isFree (by cases value <;> decide)))
  | null => exact .ofExpr (.value (.of_isFree (by decide)))
  | template _ halternate _ hfilled ih =>
    exact .ofExpr (template_fits halternate (nameFree_texts hL hfilled) fun e he =>
      ih e he (hpermits.parts e (mem_filterMap.mpr ⟨_, he, rfl⟩)))
  | binary hop _ _ iha ihb =>
    obtain ⟨ha, hb⟩ := Permits.pair hpermits.parts
    exact .binary hop (iha ha) (ihb hb)
  | unary hop _ ih => exact .unary hop (ih (hpermits.parts _ mem_cons_self))
  | call _ harguments ihc iha =>
    obtain ⟨hc, ha⟩ := forall_mem_cons.mp hpermits.parts
    exact .ofExpr (call_fits (ihc hc) (fun a hmem => hbare (harguments a hmem))
      fun a hmem => iha a hmem (ha a hmem))
  | member _ hname ih =>
    exact .member (ih (hpermits.parts _ mem_cons_self)) (free_word hL hname)
  | index _ _ iha ihb =>
    obtain ⟨ha, hb⟩ := Permits.pair hpermits.parts
    exact .index (iha ha) (ihb hb)
  | assign htarget _ iha ihb =>
    obtain ⟨ha, hb⟩ := Permits.pair hpermits.parts
    exact .ofExpr (assignment_fits (iha ha) (hbare htarget) (ihb hb))
  | arrow hnames _ _ ihd ihb =>
    obtain ⟨hd, hb⟩ := forall_mem_append.mp hpermits.parts
    exact .ofExpr (arrowFunction_fits (hparams hnames) (Permits.defaults hd ihd)
      (block_fits fun n hn => ihb n hn (hb n hn)))
  | arrowValue hnames _ _ ihd ihb =>
    obtain ⟨hd, hb⟩ := forall_mem_append.mp hpermits.parts
    exact .ofExpr (arrowFunction_fits (hparams hnames) (Permits.defaults hd ihd)
      (operand_fits (ihb (forall_mem_singleton.mp hb))))
  | array _ ih => exact .array fun n hn => ih n hn (hpermits.parts n hn)
  | object hsome _ hkeys ih =>
    exact .ofExpr (objectLiteral_fits (fun e he => nameFree_valued hL (hkeys e he)) hsome
      (Permits.values hpermits.parts ih))
  | conditional _ _ _ ihc iha ihb =>
    obtain ⟨hc, hrest⟩ := forall_mem_cons.mp hpermits.parts
    obtain ⟨ha, hb⟩ := Permits.pair hrest
    exact .conditional (ihc hc) (iha ha) (ihb hb)
  | pipe _ _ iha ihb =>
    obtain ⟨ha, hb⟩ := Permits.pair hpermits.parts
    exact .pipe (iha ha) (ihb hb)
  | element htag _ hnames _ _ _ ihv ihc =>
    obtain ⟨hv, hc⟩ := forall_mem_append.mp hpermits.parts
    refine .element (free_word hL htag) (fun e he => free_label hL (hnames e he))
      (fun e he hat => (hpermits _ (Node.mem_outline_self _)).2.1 ?_)
      (Permits.values hv ihv) fun n hn => ihc n hn (hc n hn)
    exact any_eq_true.mpr ⟨e, he, hat⟩
  | use hname _ hnames _ _ _ _ ihv =>
    obtain ⟨hv, -⟩ := forall_mem_append.mp hpermits.parts
    exact .use (free_word hL hname) (fun e he => free_label hL (hnames e he))
      (Permits.values hv ihv)
  | text hvalue => exact .text (nameFree_wording hL hvalue)
  | interpolation _ ih => exact .interpolation (ih (hpermits.parts _ mem_cons_self))
  | @ifElse _ _ _ _ alternate hpos _ _ _ ihc ihy ihn =>
    obtain ⟨hfront, hno⟩ := forall_mem_append.mp hpermits.parts
    obtain ⟨hc, hyes⟩ := forall_mem_cons.mp hfront
    have hyes := fun n hn => ihy n hn (hyes n hn)
    have hno : ∀ ns ∈ alternate, ∀ n ∈ ns, Fits k R .statement n := by
      rintro ns rfl n hn
      exact ihn ns rfl n hn (hno n hn)
    exact .ofBoth hpos (conditional_fits (ihc hc) hyes hno) fun parent hparent =>
      childConditional_fits (ihc hc) hyes hno hparent
  | forEach hpos hname _ _ ihi ihb =>
    obtain ⟨hi, hb⟩ := forall_mem_cons.mp hpermits.parts
    have hname := free_word hL hname
    have hbody := fun n hn => ihb n hn (hb n hn)
    exact .ofBoth hpos (forLoop_fits (ihi hi) hbody hname) fun parent hparent =>
      childLoop_fits (ihi hi) hbody hname hparent
  | returning _ ih =>
    exact .returning fun v hv => ih v hv (hpermits.parts v (Option.mem_toList.mpr hv))
  | expression _ ih =>
    exact .ofStmt (((ih (hpermits.parts _ mem_cons_self)).expr rfl).bindPure fun _ hcode =>
      (Free.append_closing (by decide)).mpr hcode)
  | block _ ih =>
    exact .ofStmt (block_fits fun n hn => ih n hn (hpermits.parts n hn))
  | component hname hnames _ _ ihd ihb =>
    obtain ⟨hd, hb⟩ := forall_mem_append.mp hpermits.parts
    obtain rfl := (hpermits _ (Node.mem_outline_self _)).1 rfl
    exact .ofStmt (component_fits (hparams hnames) (Permits.defaults hd ihd)
      (free_word hL hname) fun n hn => ihb n hn (hb n hn))
  | function hname hnames _ _ ihd ihb =>
    obtain ⟨hd, hb⟩ := forall_mem_append.mp hpermits.parts
    exact .ofStmt (function_fits (fun n hn => ihb n hn (hb n hn)) (free_word hL hname)
      (hparams hnames) (Permits.defaults hd ihd))
  | binding hname _ ih =>
    exact .binding (free_word hL hname) (ih (hpermits.parts _ mem_cons_self))
  | state hname _ ih =>
    exact .state (free_word hL hname) (ih (hpermits.parts _ mem_cons_self))
  | effect _ ih =>
    exact .ofStmt (effect_fits fun n hn => ih n hn (hpermits.parts n hn))
  | style hsome _ hname ih =>
    exact .ofStmt ((style_fits hsome (Permits.values hpermits.parts ih)
        ((hpermits _ (Node.mem_outline_self _)).2.2 fun word hword =>
          free_word hL (hname word hword))).bindPure fun _ _ => .of_isFree (by decide))
  | imports hspecifiers =>
    exact .ofStmt (importCode_fits fun s hs => free_word hL (hspecifiers s hs))
  | exports hspecifiers _ ih =>
    exact .ofStmt (exportCode_fits (fun s hs => free_word hL (hspecifiers s hs))
      fun d hd => ih d hd (hpermits.parts d (Option.mem_toList.mpr hd)))

end Drawn

lemma fits_of_grammatical (h : Syntax.Grammatical pos n)
    (hrules : ∀ m ∈ n.outline, RuleFits .closing R m) : Fits .closing R pos n :=
  fits_of_drawn (fun _ _ hk => absurd rfl hk) h (permits_closing hrules)

end UiScript.Script
