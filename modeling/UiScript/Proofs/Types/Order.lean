import Mathlib.Data.List.Nodup
import Mathlib.Data.List.Perm.Basic
import UiScript.Proofs.Types.Places
import UiScript.Proofs.Types.Soundness

/-!
# The order of declarations

Two checkers in which every name means the same report the same. What a top level node declares is
registered before any node is checked, so its order does not matter.
-/

namespace UiScript.Types

open List

variable {ns : List Node} {c c' : Checker} {α : Type}

/-! ### Registering -/

/-- The names that a top level node declares before it is checked. -/
def declaredNames (n : Node) : List String :=
  match unwrapped n with
  | .component _ name _ _ | .function _ name _ _ _ => [name]
  | .imports _ specifiers _ => specifiers
  | _ => []

/-- The step sets the meaning of some names only, that of each depending on what it was before. -/
structure Sets (names : List String) (f : Checker → Checker) : Prop where
  others : ∀ c, ∀ name ∉ names, AgreeAt name c (f c)
  own : ∀ {c c' name}, AgreeAt name c c' → AgreeAt name (f c) (f c')
  quiet : ∀ c, (f c).diagnostics = c.diagnostics

lemma lookup?_scope_define (c : Checker) (name : String) (t : Ty) (other : String) :
    ({ c with scopes := c.scopes.defineIn c.scopes.current name t } : Checker).scope.lookup? other =
      if other = name then some t else c.scope.lookup? other := by
  rw [Checker.scope, Scopes.visible_define, Scope.lookup?_define, Checker.scope]

namespace Sets

variable {names names' : List String} {f g : Checker → Checker}

lemma comp (hg : Sets names g) (hf : Sets names f) : Sets names (g ∘ f) where
  others c name hname := (hf.others c name hname).trans (hg.others (f c) name hname)
  own h := hg.own (hf.own h)
  quiet c := (hg.quiet (f c)).trans (hf.quiet c)

lemma mono (h : Sets names f) (hsub : names ⊆ names') : Sets names' f :=
  { h with others := fun c name hname => h.others c name (mt (@hsub name) hname) }

lemma foldl {as : List α} {f : Checker → α → Checker}
    (h : ∀ a ∈ as, Sets names (f · a)) : Sets names fun c => as.foldl f c := by
  induction as with
  | nil => exact ⟨fun c name _ => .refl name c, id, fun _ => rfl⟩
  | cons a as ih =>
    obtain ⟨ha, has⟩ := forall_mem_cons.mp h
    exact (ih has).comp ha

lemma define (name : String) (t : Ty) :
    Sets [name] fun c =>
      { c with scopes := c.scopes.defineIn c.scopes.current name t } where
  others c other hother := by
    refine { AgreeAt.refl other c with scope := ?_ }
    rw [lookup?_scope_define, if_neg (mt mem_singleton.mpr hother)]
  own h := { h with scope := by rw [lookup?_scope_define, lookup?_scope_define, h.scope] }
  quiet _ := rfl

lemma component (name : String) (t : Ty) :
    Sets [name] fun c => { c with components := Dict.set name t c.components } where
  others c other hother := { AgreeAt.refl other c with
    components := (Dict.get?_set_of_ne (mt mem_singleton.mpr hother) t _).symm }
  own {c c' other} h := by
    refine { h with components := ?_ }
    by_cases hname : other = name
    · rw [hname, Dict.get?_set_self, Dict.get?_set_self]
    · rw [Dict.get?_set_of_ne hname, Dict.get?_set_of_ne hname, h.components]
  quiet _ := rfl

lemma mem_imported (name other : String) (names : List String) :
    other ∈ (if names.contains name then names else names ++ [name]) ↔
      other ∈ names ∨ other = name := by
  split
  next h =>
    rw [contains_iff_mem] at h
    exact ⟨.inl, fun hother => hother.elim id fun heq => heq ▸ h⟩
  · rw [mem_append, mem_singleton]

lemma imported (name : String) :
    Sets [name] fun c => { c with
      imported := if c.imported.contains name then c.imported else c.imported ++ [name] } where
  others c other hother := by
    refine { AgreeAt.refl other c with imported := ?_ }
    rw [mem_imported, or_iff_left (mt mem_singleton.mpr hother)]
  own h := { h with imported := by rw [mem_imported, mem_imported, h.imported] }
  quiet _ := rfl

lemma swap (hf : Sets names f) (hg : Sets names' g) (hdisjoint : names.Disjoint names')
    (c : Checker) : Agree (g (f c)) (f (g c)) := by
  intro name
  by_cases hname : name ∈ names
  · have hother := hdisjoint hname
    exact (hg.others (f c) name hother).symm.trans (hf.own (hg.others c name hother))
  · exact (hg.own (hf.others c name hname)).symm.trans (hf.others (g c) name hname)

end Sets

def Checker.after (c : Checker) (m : Check α) : Checker := (m.run c).2

lemma after_bind {β : Type} (c : Checker) (m : Check α) (k : Check β) :
    c.after (m >>= fun _ => k) = (c.after m).after k :=
  rfl

lemma after_inOrder (c : Checker) (ms : List (Check α)) :
    c.after (inOrder ms) = ms.foldl Checker.after c := by
  induction ms generalizing c with
  | nil => rfl
  | cons m ms ih => exact ih (c.after m)

lemma sets_register (n : Node) : Sets (declaredNames n) fun c => c.after (register n) := by
  have hnone : Sets [] fun c : Checker => c := ⟨fun c name _ => .refl name c, id, fun _ => rfl⟩
  unfold declaredNames register
  generalize unwrapped n = n
  cases n with
  | component _ name => exact (Sets.define name _).comp (.component name _)
  | function _ name => exact .define name _
  | imports _ specifiers =>
    change Sets specifiers fun c => c.after (inOrder (specifiers.map fun name => do
      modify fun c => { c with
        imported := if c.imported.contains name then c.imported else c.imported ++ [name] }
      define name .any))
    simp only [after_inOrder, foldl_map]
    exact .foldl fun name hname => ((Sets.define name .any).comp (.imported name)).mono
      (cons_subset.mpr ⟨hname, nil_subset _⟩)
  | _ => exact hnone

lemma sets_registers (ns : List Node) :
    Sets (ns.flatMap declaredNames) fun c => (ns.map register).foldl Checker.after c :=
  .foldl (forall_mem_map.mpr fun n hn =>
    (sets_register n).mono fun _ hname => mem_flatMap.mpr ⟨n, hn, hname⟩)

def Checker.cleared (c : Checker) : Checker := { c with diagnostics := [] }

/-- The checker with the declarations of a program, before its nodes are checked. -/
def Checker.registered (c : Checker) (ns : List Node) : Checker :=
  (ns.map register).foldl Checker.after
    ((browserNames.map fun name => define name .any).foldl Checker.after c.cleared)

lemma step_eq (c : Checker) (p : Program) :
    c.step p = (p.body.map fun n => (judge n).check).foldl Checker.after (c.registered p.body) := by
  change c.after (checkProgram p) = _
  rw [checkProgram, after_bind, after_bind, after_bind, after_bind, after_inOrder, after_inOrder,
    after_inOrder, judgeList_eq, map_map]
  rfl

lemma AgreeAt.cleared (name : String) (c : Checker) : AgreeAt name c c.cleared :=
  { AgreeAt.refl name c with }

/-- Nothing is reported while the declarations are registered. -/
lemma diagnostics_registered (c : Checker) (ns : List Node) :
    (c.registered ns).diagnostics = [] := by
  have hnames : Sets browserNames fun c =>
      (browserNames.map fun name => define name .any).foldl Checker.after c :=
    .foldl (forall_mem_map.mpr fun name hname =>
      (Sets.define name .any).mono (cons_subset.mpr ⟨hname, nil_subset _⟩))
  rw [Checker.registered, (sets_registers ns).quiet, hnames.quiet, Checker.cleared]

lemma agree_of_perm {ms : List Node} (h : ns.Perm ms) (hnodup : (ns.flatMap declaredNames).Nodup)
    (hc : Agree c c') :
    Agree ((ns.map register).foldl Checker.after c) ((ms.map register).foldl Checker.after c') := by
  induction h generalizing c c' with
  | nil => exact hc
  | cons n _ ih =>
    exact ih (nodup_append.mp hnodup).2.1 fun name => (sets_register n).own (hc name)
  | swap m n ns =>
    -- both orders agree after the two nodes, and all that follows keeps it
    have hdisjoint : (declaredNames n).Disjoint (declaredNames m) := by
      rw [flatMap_cons, flatMap_cons, ← append_assoc] at hnodup
      exact disjoint_of_nodup_append (nodup_append.mp hnodup).1
    have hswap := (sets_register n).swap (sets_register m) hdisjoint
    intro name
    refine (sets_registers ns).own ((hswap c name).trans ?_)
    exact (sets_register n).own ((sets_register m).own (hc name))
  | trans h _ ih ih' =>
    refine fun name => (ih hnodup hc name).trans (ih' ?_ (fun name => .refl name c') name)
    exact ((h.flatMap_right declaredNames).nodup_iff).mp hnodup

/-! ### The diagnostics of each node -/

def Checker.reports (c : Checker) : List Node → List (List Diagnostic)
  | [] => []
  | n :: ns =>
    let d := c.cleared.after (judge n).check
    d.diagnostics :: d.reports ns

lemma length_reports (c : Checker) (ns : List Node) : (c.reports ns).length = ns.length := by
  induction ns generalizing c with
  | nil => rfl
  | cons n ns ih => exact congrArg (· + 1) (ih _)

lemma diagnostics_eq_reports (h : ∀ n ∈ ns, Steady true n) (hc : Agree c c') :
    ((ns.map fun n => (judge n).check).foldl Checker.after c).diagnostics =
      c.diagnostics ++ (c'.reports ns).flatten := by
  induction ns generalizing c c' with
  | nil => exact (append_nil _).symm
  | cons n ns ih =>
    obtain ⟨hn, hns⟩ := forall_mem_cons.mp h
    have hclean : Agree c c'.cleared := fun name => (hc name).trans (.cleared name c')
    obtain ⟨_, ds, ds', s, s', hrun, hrun', -, -, hds, hs⟩ := hn.check.loose hclean
    obtain rfl : ds = ds' := by simpa [Diagnostic.seen, View.loose] using hds
    have hafter : c.after (judge n).check = c.moved s ds := congrArg Prod.snd hrun
    have hafter' : c'.cleared.after (judge n).check = c'.cleared.moved s' ds :=
      congrArg Prod.snd hrun'
    rw [map_cons, foldl_cons, hafter, ih hns (hclean.moved hs ds ds), Checker.reports,
      hafter', flatten_cons, ← append_assoc]
    rfl

def Checker.reported (c : Checker) (n : Node) : List Diagnostic :=
  (c.cleared.after (judge n).check).diagnostics

/-- Nodes without values are reported on independently of each other. -/
lemma reports_eq_map (h : ∀ n ∈ ns, Steady true n)
    (hvalues : ∀ n ∈ ns, declaresValue n = false) (hc : Agree c c') :
    c.reports ns = ns.map c'.reported := by
  induction ns generalizing c with
  | nil => rfl
  | cons n ns ih =>
    obtain ⟨hn, hns⟩ := forall_mem_cons.mp h
    obtain ⟨hvalue, hvalues⟩ := forall_mem_cons.mp hvalues
    have hcheck := hn.check
    rw [hvalue] at hcheck
    have hclean : Agree c.cleared c'.cleared :=
      fun name => (AgreeAt.cleared name c).symm.trans ((hc name).trans (.cleared name c'))
    obtain ⟨_, ds, ds', s, s', hrun, hrun', hs, -, hds, -⟩ := hcheck hclean
    obtain rfl : ds = ds' := by simpa [Diagnostic.seen] using hds
    have hafter : c.cleared.after (judge n).check = c.cleared.moved s ds := congrArg Prod.snd hrun
    have hafter' : c'.cleared.after (judge n).check = c'.cleared.moved s' ds :=
      congrArg Prod.snd hrun'
    have hvisible : s.visible = c.scope := hs.visible c.scopes.current_lt
    have hrest : Agree (c.cleared.moved s ds) c' := fun name =>
      { hc name with scope := (congrArg (·.lookup? name) hvisible).trans (hc name).scope }
    rw [Checker.reports, map_cons, Checker.reported, hafter, hafter', ih hns hvalues hrest]
    rfl

/-- The diagnostics of a program are those of its nodes, and they do not depend on the order of
the declarations: if no top level node declares a value and the names of components, functions and
imports differ, then every node of a rearranged program gets the diagnostics that it got before. -/
theorem diagnostics_of_rearranged {source file : String} {p : Program}
    (hp : Program.parse source file = .ok p) (hvalues : ∀ n ∈ p.body, declaresValue n = false)
    (hnames : (p.body.flatMap declaredNames).Nodup) (c : Checker)
    {pairs : List (Node × List Diagnostic)}
    (hpairs : pairs.Perm (p.body.zip ((c.registered p.body).reports p.body))) :
    ((c.registered p.body).reports p.body).length = p.body.length ∧
    (c.step p).diagnostics = ((c.registered p.body).reports p.body).flatten ∧
    (c.registered (pairs.map Prod.fst)).reports (pairs.map Prod.fst) = pairs.map Prod.snd ∧
    (c.step { p with body := pairs.map Prod.fst }).diagnostics = (pairs.map Prod.snd).flatten := by
  have hsteady (n : Node) (hn : n ∈ p.body) : Steady true n :=
    steady_of_grammatical true (Syntax.grammatical_of_parse hp n hn)
  have hrefl (c : Checker) : Agree c c := fun name => .refl name c
  have hlength := length_reports (c.registered p.body) p.body
  have hbody : (pairs.map Prod.fst).Perm p.body := by
    have hfst := hpairs.map Prod.fst
    rwa [List.map_fst_zip hlength.ge] at hfst
  have hmem (n : Node) (hn : n ∈ pairs.map Prod.fst) : n ∈ p.body := hbody.mem_iff.mp hn
  have hagree : Agree (c.registered (pairs.map Prod.fst)) (c.registered p.body) := by
    refine agree_of_perm hbody ?_ (hrefl _)
    exact (hbody.flatMap_right declaredNames).nodup_iff.mpr hnames
  have hreports : (c.registered (pairs.map Prod.fst)).reports (pairs.map Prod.fst) =
      pairs.map Prod.snd := by
    rw [reports_eq_map (fun n hn => hsteady n (hmem n hn))
      (fun n hn => hvalues n (hmem n hn)) hagree, List.map_map]
    refine List.map_congr_left fun pair hpair => ?_
    have hzip := hpairs.mem_iff.mp hpair
    rw [reports_eq_map hsteady hvalues (hrefl _), ← List.map_prod_left_eq_zip] at hzip
    obtain ⟨n, -, rfl⟩ := List.mem_map.mp hzip
    rfl
  refine ⟨hlength, ?_, hreports, ?_⟩
  · rw [step_eq, diagnostics_eq_reports hsteady (hrefl _), diagnostics_registered, List.nil_append]
  · rw [step_eq, diagnostics_eq_reports (fun n hn => hsteady n (hmem n hn)) (hrefl _),
      diagnostics_registered, List.nil_append, hreports]

/-- A function that is called with too many arguments before it is declared, and an export of
nothing. -/
theorem diagnostics_of_rearranged_reverse :
    let source := "fn f() \x7b return g(1) \x7d\nexport \x7b h \x7d\nexport fn g() \x7b \x7d"
    ∃ p, Program.parse source "main" = .ok p ∧ (∀ n ∈ p.body, declaresValue n = false) ∧
      p.body.flatMap declaredNames = ["f", "g"] ∧
      ((({} : Checker).registered p.body).reports p.body).map List.length = [1, 1, 0] ∧
      (({} : Checker).step { p with body := p.body.reverse }).diagnostics =
        ((({} : Checker).registered p.body).reports p.body).reverse.flatten := by
  intro source
  have hsource : ((Program.parse source "main").toOption.map fun p =>
      (decide (∀ n ∈ p.body, declaresValue n = false), p.body.flatMap declaredNames,
        ((({} : Checker).registered p.body).reports p.body).map List.length)) =
      some (true, ["f", "g"], [1, 1, 0]) := by
    decide +kernel
  obtain ⟨p, hp, hsource⟩ := exists_of_toOption hsource
  obtain ⟨hvalues, hsource⟩ := Prod.mk.inj hsource
  obtain ⟨hnames, hreports⟩ := Prod.mk.inj hsource
  replace hvalues := of_decide_eq_true hvalues
  refine ⟨p, hp, hvalues, hnames, hreports, ?_⟩
  have hlength := length_reports (({} : Checker).registered p.body) p.body
  have hrearranged := diagnostics_of_rearranged hp hvalues (by rw [hnames]; decide) {}
    (List.reverse_perm _)
  rw [List.map_reverse, List.map_reverse, List.map_fst_zip hlength.ge,
    List.map_snd_zip hlength.le] at hrearranged
  exact hrearranged.2.2.2

/-! ### Programs without places -/

/-- A program has the diagnostics of the program without places, apart from these. -/
lemma typeDiagnostics_body {p q : Program} (hread : ∀ n ∈ p.body, Syntax.Grammatical .statement n)
    (h : q.body = p.body.map Node.unplaced) :
    p.typeDiagnostics.map Diagnostic.unplaced = q.typeDiagnostics.map Diagnostic.unplaced := by
  have hregistered : ({} : Checker).registered q.body = ({} : Checker).registered p.body := by
    unfold Checker.registered
    rw [h, map_map]
    exact congrArg (foldl _ _) (map_congr_left fun n _ => register_unplaced n)
  have hbody := alike_list fun n hn => steady_of_grammatical false (hread n hn)
  rw [cond_false, Node.unplacedList_eq_map, ← h] at hbody
  have hstep (p : Program) : p.typeDiagnostics = ((({} : Checker).registered p.body).after
      (inOrder ((judgeList p.body).map (·.2.check)))).diagnostics := by
    rw [Program.typeDiagnostics, step_eq, ← after_inOrder, judgeList_eq, map_map]
    rfl
  obtain ⟨_, ds, ds', s, s', hrun, hrun', -, -, hds, -⟩ :=
    Coupled.inOrder_map hbody (fun _ _ hn => hn.check)
      fun name => .refl name (({} : Checker).registered p.body)
  rw [hstep, hstep, hregistered, Checker.after, Checker.after, hrun, hrun', Checker.moved,
    Checker.moved, diagnostics_registered, nil_append, nil_append]
  exact hds

/-- Programs that are equal without places have the same diagnostics, apart from places. -/
theorem typeDiagnostics_unplaced {p p' : Program}
    (hread : ∀ n ∈ p.body, Syntax.Grammatical .statement n)
    (hread' : ∀ n ∈ p'.body, Syntax.Grammatical .statement n)
    (h : p.body.map Node.unplaced = p'.body.map Node.unplaced) :
    p.typeDiagnostics.map Diagnostic.unplaced = p'.typeDiagnostics.map Diagnostic.unplaced := by
  let q : Program := { body := p.body.map Node.unplaced }
  exact (typeDiagnostics_body (q := q) hread rfl).trans (typeDiagnostics_body hread' h).symm

end UiScript.Types
