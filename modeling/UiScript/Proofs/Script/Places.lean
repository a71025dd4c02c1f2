import UiScript.Proofs.Page
import UiScript.Proofs.Script.Routing

/-!
# Places do not show in a page

The place of a node only shows in the remarks, so a tree and the tree without places have the same
code.
-/

namespace UiScript.Script

lemma declaredComponent?_unplaced (n : Node) :
    declaredComponent? n.unplaced = declaredComponent? n := by
  cases n with
  | exports _ _ declaration =>
    rcases declaration with _ | d
    · rfl
    · cases d with
      | arrow _ _ body => cases body <;> rfl
      | _ => rfl
  | arrow _ _ body => cases body <;> rfl
  | _ => rfl

lemma toPage_unplaced_body (p p' : Program) (h : p'.body = p.body.map Node.unplaced)
    (title : String) : p.toPage title = p'.toPage title := by
  have hnames : p'.body.filterMap declaredComponent? = p.body.filterMap declaredComponent? := by
    rw [h, List.filterMap_map]
    exact List.filterMap_congr fun n _ => declaredComponent?_unplaced n
  have hbody := lowerList_unplaced 0 [] p.body .statement
  rw [Node.unplacedList_eq_map, ← h] at hbody
  have hcodes : SameCode [] [] (inOrder ((lowerList p.body).map (·.2.stmt)))
      (inOrder ((lowerList p'.body).map (·.2.stmt))) :=
    Paired.sameCode Each.eq (inOrder_map hbody fun hn => hn.forms.stmt rfl)
  have hstart : Alike [] [] { title, components := p.body.filterMap declaredComponent? }
      { title, components := p'.body.filterMap declaredComponent? } := by
    constructor <;> simp only [hnames]
  have hrun := hcodes hstart
  rw [Program.toPage, Program.toPage, toPageWith_eq, toPageWith_eq]
  generalize (inOrder ((lowerList p.body).map _)).run _ = r,
    (inOrder ((lowerList p'.body).map _)).run _ = r' at hrun ⊢
  cases hrun with
  | ok hv hg =>
    subst hv
    exact congrArg Except.ok (by simp only [pageOf, hg.title, hg.components, hg.css, hg.published])
  | error => rfl

end UiScript.Script

namespace UiScript

/-- Programs that are equal without places have the same page. -/
theorem Program.toPage_unplaced {p p' : Program}
    (h : p.body.map Node.unplaced = p'.body.map Node.unplaced) (title : String) :
    p.toPage title = p'.toPage title := by
  let q : Program := { body := p.body.map Node.unplaced }
  exact (Script.toPage_unplaced_body p q rfl title).trans
    (Script.toPage_unplaced_body p' q h title).symm

end UiScript
