import UiScript.Proofs.Syntax.Rows

/-!
# The productions of the grammar follow one another

Each production follows itself along any simulation, over productions one level down that do.
-/

namespace UiScript.Syntax

/-- The node of a tag without its place. -/
def tagged (tag : String) (entries : List (Entry Node)) (inner : List Node) (closed : Bool) :
    Node :=
  if tag.toList.head?.any isAsciiUpper then
    .use none tag (entries.filter (·.value.isSome)) inner closed
  else .element none tag entries inner closed

/-- Without its place a tag keeps its name and the names of its attributes. -/
lemma unplaced_tagNode (place : Place) (tag : String) (as : List (Entry Node)) (ns : List Node)
    (closed : Bool) : (tagNode place tag as ns closed).unplaced =
      tagged tag (as.map Node.unplacedEntry) (ns.map Node.unplaced) closed := by
  unfold tagNode tagged
  split_ifs
  · have hvalues : (as.filter (·.value.isSome)).map Node.unplacedEntry =
        (as.map Node.unplacedEntry).filter (·.value.isSome) := by
      rw [List.filter_map]
      congr 2
      funext x
      simp [Node.unplacedEntry]
    simp [Node.unplaced, hvalues]
  · simp [Node.unplaced]

end UiScript.Syntax

namespace UiScript.Syntax.Simulation

open Token (Kind row_eq_iff)

open Node (unplaced unplacedEntry)

attribute [local simp] unplaced

variable {S : Simulation} {r r' : Rules}

/-- A symbol is one of some. -/
def isAny (marks : List Symbol) : Kind → Bool
  | .symbol mark => marks.contains mark
  | _ => false

/-- A comparison operator is next: an angle bracket that opens an element is none. -/
def comparing (c : Cursor) : Bool :=
  if c.current.kind == .symbol .lt then
    !(c.current.kind == .symbol .lt && c.rest.head?.any fun t => isTagName t.kind t.value)
  else isAny [.gt, .lte, .gte] c.current.kind

/-- The productions of a level follow those of another one. Fragments of templates have tokens of
their own, which say the same in both readings. -/
structure RulesFollow (S : Simulation) (r r' : Rules) : Prop where
  expression (s : List Bracket) : S.FollowsNode s r.expression r'.expression
  assignment (s : List Bracket) : S.FollowsNode s r.assignment r'.assignment
  unary (s : List Bracket) : S.FollowsNode s r.unary r'.unary
  statement (s : List Bracket) :
    S.Follows anyKind s s .past unplaced r.statement r'.statement
  element (s : List Bracket) : S.FollowsNode s r.element r'.element
  ifElse (s : List Bracket) : S.Follows anyKind s s .past unplaced r.ifElse r'.ifElse
  typeExpr (s : List Bracket) : S.Follows anyKind s s .near id r.typeExpr r'.typeExpr
  fragment : sameRows.FollowsNode [] r.expression r'.expression

section

variable {s : List Bracket} (h : S.RulesFollow r r') {marks : List Symbol}
include h

/-! ### Types and parameters -/

/-- Types have no places, so both readings give the same one. -/
lemma typeExpr_follows : S.Follows anyKind s s .near id (typeExpr r) (typeExpr r') := by
  refine .bind_id .expectIdentifier fun name => .accept_ite rfl rfl ?_ (.pure rfl)
  refine .bind_id (h.typeExpr s) fun first => ?_
  refine .close (v := id) (.iterate (v := id) (by simp) (fun as bs hab => ?_) rfl) rfl rfl ?_
  · obtain rfl : as = bs := hab
    exact .comma_ite (.inner (.bind_id (h.typeExpr s) fun a => .pure rfl)) (.inner (.pure rfl))
  · rintro as bs hab
    obtain rfl : as = bs := hab
    exact .pure rfl

lemma optionalType_follows :
    S.Follows anyKind s s .near id (optionalType r) (optionalType r') :=
  .accept_ite rfl rfl (.bind_id (h.typeExpr s) fun _ => .pure rfl) (.pure rfl)

/-- The default of a parameter is all that has places. -/
lemma param_follows :
    S.Follows anyKind s s .near Node.unplacedParam (param r) (param r') := by
  refine .bind_id .expectIdentifier fun name => ?_
  refine .bind_id (optionalType_follows h) fun written => ?_
  refine .accept_ite rfl rfl ?_ (.bind_id (.pure rfl) fun _ => .pure rfl)
  refine .bind (.map (w := Option.map unplaced) (h.expression s) ?_) fun a b hab => .pure ?_
  · intro a b hab
    simp [hab]
  · simp [Node.unplacedParam, hab]

lemma params_follows :
    S.Follows anyKind s s .inner (List.map Node.unplacedParam) (params r) (params r') := by
  refine .bind_inner .skipNewlines fun _ _ _ => ?_
  exact .collectSeparated .check_inner
    (.inner (param_follows h)) .skipNewlines

/-! ### Blocks -/

/-- Statements up to the closing brace or the end. -/
lemma blockBody_follows :
    S.Follows anyKind s s .inner (List.map unplaced) (blockBody r) (blockBody r') := by
  refine .bind_inner .skipNewlines fun _ _ _ => .collectUntil ?_ ?_
  · exact .test_inner fun k => k == .symbol .rightBrace || k == .endOfFile
  · exact .withNewlines (.inner_of_past (h.statement s))

lemma block_follows :
    S.Follows anyKind s s .near (List.map unplaced) (block r) (block r') := by
  refine .symbol rfl rfl ?_
  exact .close (blockBody_follows h) rfl rfl fun b b' hb => .pure hb

/-- The word `else` is looked for behind line ends. -/
lemma ifElse_follows : S.Follows anyKind s s .past unplaced (ifElse r) (ifElse r') := by
  refine .here_bind fun p p' => .bind (.expect rfl rfl) fun _ _ _ => ?_
  refine .bind (h.expression s) fun e e' he => .bind (block_follows h) fun b b' hb => ?_
  refine .skip_else (.check_ite rfl ?_ ?_) ?_
  · refine .any (.yield (h.ifElse s) fun n n' hn => ?_)
    simp [he, hb, hn]
  · refine .bind (block_follows h) fun d d' hd => .past (.pure ?_)
    simp [he, hb, hd]
  · simp [he, hb]

lemma forEach_follows : S.FollowsNode s (forEach r) (forEach r') := by
  refine .here_bind fun p p' => .bind (.expect rfl rfl) fun _ _ _ => ?_
  refine .bind_id .expectIdentifier fun name => .bind (.expect rfl rfl) fun _ _ _ => ?_
  refine .bind (h.expression s) fun e e' he => .bind (block_follows h) fun b b' hb => .pure ?_
  simp [he, hb]

/-! ### Markup -/

omit h in
/-- The words of a name are the same in both readings. -/
lemma attributeName_follows : S.Follows anyKind s s .near id attributeName attributeName := by
  refine .accept_ite rfl rfl (.bind_id .expectName fun name => .pure rfl) ?_
  refine .bind_id .expectName fun name => .iterate (v := id) (by simp) (fun a b hab => ?_) rfl
  obtain rfl : a = b := hab
  exact .accept_ite rfl rfl (.bind_id .expectName fun name => .pure rfl) (.pure rfl)

/-- The value of a string is the same, wherever its token is. -/
lemma attributeValue_follows : S.FollowsNode s (attributeValue r) (attributeValue r') := by
  refine .accept_ite rfl rfl ?_ (.check_ite rfl ?_ (h.unary s))
  · refine .bind (h.expression _) fun e e' he => .symbol rfl rfl ?_
    exact .pure he
  · refine .bind (.advance_kind rfl rfl) fun t t' ht => .pure ?_
    simp [(row_eq_iff.mp ht).2.1]

lemma tagAttribute_follows :
    S.Follows anyKind s s .near unplacedEntry (tagAttribute r) (tagAttribute r') := by
  refine .bind_id attributeName_follows fun name => ?_
  refine .accept_ite rfl rfl ?_ (.bind_id (.pure rfl) fun _ => .pure rfl)
  refine .bind (.map (w := Option.map unplaced) (attributeValue_follows h) ?_) fun a b hab =>
    .pure ?_
  · intro a b hab
    simp [hab]
  · simp [unplacedEntry, hab]

omit h in
/-- The words of a text are the same, and so is the text. -/
lemma textRun_follows :
    S.Follows (fun k => k = .identifier ∨ k = .number) s s .inner unplaced textRun
      textRun := by
  have hfirst : S.Follows (fun k => k = .identifier ∨ k = .number) s s .near Token.row advance
      advance := by
    refine .advance ?_
    rintro k (rfl | rfl) <;> exact ⟨rfl, rfl⟩
  have hword : S.Follows (isTextToken · = true) s s .inner Token.row advance advance := by
    refine .advance_inner fun k hk => ?_
    unfold isTextToken at hk
    split at hk <;> first | exact ⟨rfl, rfl⟩ | cases hk
  refine .bind hfirst fun t t' ht => ?_
  refine .bind_inner (v := id) (.iterate (v := id) (by simp) (fun as bs hab => ?_) rfl) ?_
  · obtain rfl : as = bs := hab
    refine .observe (Q := anyKind) (R := (isTextToken · = true)) (fun _ => rfl)
      (fun _ hn => test_of_near hn (! isTextToken ·) fun _ _ => rfl) (fun _ _ => trivial)
      (fun _ ht => by simpa using ht) (.inner (.pure rfl)) ?_
    refine .bind_inner (v := id) (.yield hword ?_) fun a b hab => .inner (.pure ?_)
    · intro a b hab
      exact (row_eq_iff.mp hab).2.1
    · obtain rfl : a = b := hab
      rfl
  · intro words words' hwords
    obtain rfl : words = words' := hwords
    refine .inner (.pure ?_)
    simp [(row_eq_iff.mp ht).2.1]

omit h in
/-- The closing brace behind a child. -/
private lemma closingBrace_follows {n n' : Node} (hn : n.unplaced = n'.unplaced) :
    S.Follows anyKind (.brace :: s) s .near unplaced
      (do skipNewlines; expectSymbol .rightBrace; return n)
      (do skipNewlines; expectSymbol .rightBrace; return n') :=
  .close .skipNewlines rfl rfl fun _ _ _ => .pure hn

/-- Both readings take the same branch, as they see the same kind of token. -/
lemma bracedItem_follows (p p' : Place) :
    S.Follows anyKind s s .inner unplaced (bracedItem r p) (bracedItem r' p') := by
  refine .peek_bind rfl fun k _ => ?_
  split
  · exact .any (ifElse_follows h).inner_of_past
  · exact .any (forEach_follows h).inner
  · refine .any (.inner (.map (h.expression _) fun e e' he => ?_))
    simp [he]

/-- The closing brace takes a token, so the line ends before it may be skipped. -/
lemma bracedChild_follows :
    S.Follows (· = .symbol .leftBrace) s s .near unplaced (bracedChild r) (bracedChild r') := by
  have htakes (n : Node) :
      Takes (do skipNewlines; expectSymbol .rightBrace; return n : Parse Node) :=
    moves_skipNewlines.bind_takes fun _ => takes_expectSymbol.bind fun _ => moves_pure n
  refine .here_bind fun p p' => .step rfl rfl ?_
  refine .bind_takes .skipNewlines (fun _ => ?_) fun _ _ _ => ?_
  · exact (bracedItem_follows (s := s) h p p).moves.bind_takes htakes
  · exact .bind_takes (bracedItem_follows h p p') htakes fun n n' => closingBrace_follows

/-- The rounds end alike at a closing tag, and where nothing starts a child. -/
lemma children_follows :
    S.Follows anyKind s s .inner (List.map unplaced) (children r) (children r') := by
  refine .iterate (v := List.map unplaced) (by simp) (fun as bs hab => ?_) rfl
  have hend {P : Kind → Prop} : S.Follows P s s .near
      (Sum.map (List.map unplaced) (List.map unplaced))
      (return .inr as.reverse : Parse (List Node ⊕ List Node)) (return .inr bs.reverse) :=
    .pure (by simp [List.map_reverse, hab])
  refine .bind_inner .skipNewlines fun _ _ _ => .closingTag_ite (.inner hend) ?_
  refine .check_ite rfl (.inner (.yield (bracedChild_follows h) ?_)) ?_
  · intro n n' hn
    simp [hn, hab]
  -- neither a closing tag nor a brace is next
  refine .element_ite (.any (.inner (.yield (h.element s) fun n n' hn => ?_))) ?_
  · simp [hn, hab]
  refine .peek_bind rfl fun k _ => ?_
  split
  · refine .inner (.yield (.advance_kind rfl rfl) fun t t' ht => ?_)
    simp [(row_eq_iff.mp ht).2.1, hab]
  · refine .yield (textRun_follows.weaken fun k hk => .inl hk) fun n n' hn => ?_
    simp [hn, hab]
  · refine .yield (textRun_follows.weaken fun k hk => .inr hk) fun n n' hn => ?_
    simp [hn, hab]
  · exact .inner hend

omit h in
/-- The tag and which attributes have a value are seen without their places. -/
lemma tagNode_unplaced (p p' : Place) (tag : String) {as as' : List (Entry Node)}
    {ns ns' : List Node} (has : as.map unplacedEntry = as'.map unplacedEntry)
    (hns : ns.map unplaced = ns'.map unplaced) (closed : Bool) :
    (tagNode p tag as ns closed).unplaced = (tagNode p' tag as' ns' closed).unplaced := by
  rw [unplaced_tagNode, unplaced_tagNode, has, hns]

private lemma tagAttributes_follows :
    S.Follows anyKind s s .inner (List.map unplacedEntry)
      (collectUntil (do return isTagEnd (← peek)) (withNewlines (tagAttribute r)))
      (collectUntil (do return isTagEnd (← peek)) (withNewlines (tagAttribute r'))) :=
  .collectUntil (.test_inner isTagEnd) (.withNewlines (tagAttribute_follows h).inner)

/-- The closing tag is compared with the opening one by name. -/
lemma elementBody_follows (p p' : Place) (tag : String) {as as' : List (Entry Node)}
    (has : as.map unplacedEntry = as'.map unplacedEntry) :
    S.FollowsNode s (elementBody r p tag as) (elementBody r' p' tag as') := by
  refine .close (children_follows h) rfl rfl fun ns ns' hns => ?_
  refine .symbol rfl rfl <| .bind (.expect rfl rfl) fun t t' ht => ?_
  rw [(row_eq_iff.mp ht).2.1]
  refine .ite (.throw_bind fun _ => rfl) (.symbol rfl rfl <| .pure ?_)
  exact tagNode_unplaced p p' tag has hns false

/-- The attributes are followed by a token, so the line ends between them may be skipped. -/
lemma element_follows : S.FollowsNode s (element r) (element r') := by
  refine .here_bind fun p p' => .symbol rfl rfl ?_
  refine .bind_id .expectIdentifier fun tag => ?_
  have htakes (as : List (Entry Node)) : Takes (elementTail r p tag as) :=
    takes_accept (by simp) (takes_expectSymbol.bind fun _ => moves_pure _)
      (takes_expectSymbol.bind fun _ => (elementBody_follows (s := s) h p p tag rfl).moves)
  refine .bind_takes .skipNewlines
    (fun _ => (tagAttributes_follows (s := s) h).moves.bind_takes htakes)
    fun _ _ _ => .bind_takes (tagAttributes_follows h) htakes fun as as' has =>
      .accept_ite rfl rfl ?_ ?_
  · refine .symbol rfl rfl <| .pure ?_
    exact tagNode_unplaced p p' tag has rfl true
  · exact .symbol rfl rfl <| elementBody_follows h p p' tag has

/-! ### Expressions -/

omit h in
lemma propertyKey_follows : S.Follows anyKind s s .near id propertyKey propertyKey := by
  refine .check_ite rfl (.yield (.advance_kind rfl rfl) fun t t' ht => ?_)
    .expectName
  exact (row_eq_iff.mp ht).2.1

/-- The key of a property is the same in both readings. -/
lemma property_follows :
    S.Follows anyKind s s .near unplacedEntry (property r) (property r') := by
  refine .bind_id propertyKey_follows fun key => .symbol rfl rfl ?_
  refine .yield (h.expression s) fun e e' he => ?_
  simp [unplacedEntry, he]

lemma object_follows : S.FollowsNode s (object r) (object r') := by
  refine .here_bind fun p p' => .symbol rfl rfl ?_
  refine .skip_close (v := List.map unplacedEntry)
    (.collectUntil .check_inner (.withComma (property_follows h))) rfl rfl
    fun ps ps' hps => .pure ?_
  simp [hps]

lemma array_follows : S.FollowsNode s (array r) (array r') := by
  refine .here_bind fun p p' => .symbol rfl rfl ?_
  refine .skip_close (v := List.map unplaced)
    (.collectUntil .check_inner (.withComma (h.expression _))) rfl rfl fun es es' hes => .pure ?_
  simp [hes]

/-- Whether a brace opens an object is seen alike from both cursors. -/
lemma arrowBody_follows :
    S.Follows anyKind s s .near Node.unplacedBody (arrowBody r) (arrowBody r') := by
  refine .check_and_ite (Q := anyKind) rfl atObject_run ?_ (fun _ _ => trivial)
    ?_ ?_
  · intro c c' hn hk
    rw [S.object_of_near hn hk]
  · refine .yield (block_follows h) fun b b' hb => ?_
    simpa [Node.unplacedBody] using hb
  · refine .yield (h.expression s) fun e e' he => ?_
    simpa [Node.unplacedBody] using he

lemma arrowFunction_follows : S.FollowsNode s (arrowFunction r) (arrowFunction r') := by
  refine .here_bind fun p p' => .symbol rfl rfl ?_
  refine .close (params_follows h) rfl rfl fun ps ps' hps => ?_
  refine .symbol rfl rfl ?_
  refine .yield (arrowBody_follows h) fun b b' hb => ?_
  simp [Node.unplaced_arrow, hps, hb]

omit h in
/-- Reading a fragment in one step: its tokens are read by a cursor of their own. -/
lemma embedded_run (r : Rules) (fragment : String) (template : Token) (c : Cursor) :
    embedded r fragment template c =
      match Token.tokenize fragment c.file with
      | .error e => .error (.lexical e) c
      | .ok [] => .error .noTokens c
      | .ok (t :: ts) =>
        match fragmentBody r
          { c with current := t, rest := ts, fragments := (ts.length + 1) :: c.fragments } with
        | .error e d => .error e d
        | .ok e d =>
          if d.current.kind = .endOfFile then .ok e { c with fragments := d.fragments }
          else .error (.trailing d.current.value template.place) d := by
  unfold embedded
  rw [bind_ok (get_run c)]
  cases Token.tokenize fragment c.file with
  | error => rfl
  | ok ts =>
    cases ts with
    | nil => rfl
    | cons =>
      dsimp only
      rw [bind_ok (set_run c _), bind_run]
      generalize fragmentBody r _ = result
      cases result with
      | error => rfl
      | ok e d =>
        simp only [bind_ok (get_run d)]
        by_cases hk : d.current.kind = .endOfFile
        · simp [hk, bind_run]
        · simp [hk, bind_run]

omit h in
/-- Behind a fragment the cursor is where it was. -/
lemma embedded_ok {fragment : String} {template : Token} {c d : Cursor} {e : Node}
    (hr : embedded r fragment template c = .ok e d) :
    ∃ ns, d = { c with fragments := ns } := by
  rw [embedded_run] at hr
  split at hr
  · cases hr
  · cases hr
  · split at hr
    · cases hr
    · split_ifs at hr
      cases hr
      exact ⟨_, rfl⟩

/-- A fragment has the same text on both sides, so its tokens say the same, in their own places. -/
lemma embedded_follows (fragment : String) (template template' : Token) :
    S.FollowsNode s (embedded r fragment template) (embedded r' fragment template') where
  reads {c d e} _ _ hr := by
    obtain ⟨ns, rfl⟩ := embedded_ok hr
    exact .refl s .near c
  agrees {c c'} _ hn := by
    have hbody : sameRows.Follows anyKind [] [] .inner unplaced (fragmentBody r)
        (fragmentBody r') :=
      .bind_inner .skipNewlines fun _ _ _ => .withNewlines h.fragment.inner
    rw [embedded_run, embedded_run]
    rcases Token.tokenize_files fragment c.file c'.file with
      ⟨e, e', he, he', hfault⟩ | ⟨ts, ts', hts, hts', hrows⟩
    · rw [he, he']
      exact .fault (congrArg Token.Fault.message hfault)
    rw [hts, hts']
    cases ts with
    | nil =>
      obtain rfl : ts' = [] := by simpa using hrows.symm
      exact .fault rfl
    | cons t ts =>
      cases ts' with
      | nil => simp at hrows
      | cons t' ts' =>
        have hagrees : sameRows.Agrees .inner unplaced
            (fragmentBody r
              { c with current := t, rest := ts, fragments := (ts.length + 1) :: c.fragments })
            (fragmentBody r'
              { c' with
                current := t', rest := ts', fragments := (ts'.length + 1) :: c'.fragments }) :=
          hbody.agrees trivial hrows
        dsimp only
        generalize fragmentBody r _ = result at hagrees ⊢
        generalize fragmentBody r' _ = result' at hagrees ⊢
        -- tokens that say the same are read to the same end
        cases hagrees with
        | endless => exact .endless
        | free hw => exact absurd trivial hw
        | fault hm => exact .fault hm
        | lost hl => exact absurd trivial hl.2.1
        | @ok e e' d d' hv hd =>
          obtain ⟨hkind, hvalue, -⟩ := row_eq_iff.mp (Cursor.rows_eq_iff.mp hd).1
          dsimp only
          rw [hkind, hvalue]
          split_ifs
          · exact .ok hv (S.near_fragments _ _ hn)
          · exact .fault rfl

/-- The segments are those of one text, so only the holes have places. -/
lemma templateParts_follows (template template' : Token) (segments : List Segment) :
    S.Follows anyKind s s .near (List.map Node.unplacedPart) (templateParts r template segments)
      (templateParts r' template' segments) := by
  induction segments with
  | nil => exact .pure rfl
  | cons segment segments ih =>
    cases segment with
    | text =>
      refine .yield ih fun ps ps' hps => ?_
      simp [hps]
    | hole =>
      refine .bind (embedded_follows h _ template template') fun e e' he => ?_
      refine .yield ih fun ps ps' hps => ?_
      simp [Node.unplacedPart, he, hps]

/-- A string and a template are told apart by the row of their token. -/
lemma stringLiteral_follows :
    S.Follows (· = .string) s s .near unplaced (stringLiteral r) (stringLiteral r') := by
  refine .bind (.advance_kind rfl rfl) fun t t' ht => ?_
  obtain ⟨-, hvalue, htemplate⟩ := row_eq_iff.mp ht
  rw [hvalue, htemplate]
  refine .ite ?_ (.pure ?_)
  · refine .bind (templateParts_follows h t t' _) fun ps ps' hps => ?_
    refine .ite (.throw_bind fun _ => rfl) (.pure ?_)
    simp [hps]
  · simp

omit h in
lemma numberLiteral_follows :
    S.Follows (· = .number) s s .near unplaced numberLiteral numberLiteral := by
  refine .bind (.advance_kind rfl rfl) fun t t' ht => ?_
  rw [(row_eq_iff.mp ht).2.1]
  split
  · exact .pure rfl
  · exact .throw fun _ => rfl

lemma nameOrArrow_follows :
    S.Follows (· = .identifier) s s .near unplaced (nameOrArrow r) (nameOrArrow r') := by
  refine .bind (.advance_kind rfl rfl) fun t t' ht => ?_
  rw [(row_eq_iff.mp ht).2.1]
  refine .accept_ite rfl rfl (.yield (arrowBody_follows h) fun b b' hb => ?_) (.pure rfl)
  simp [Node.unplaced_arrow, Node.unplacedParam, hb]

lemma parenthesized_follows :
    S.Follows (· = .symbol .leftParen) s s .near unplaced (parenthesized r)
      (parenthesized r') := by
  refine .step rfl rfl ?_
  refine .bind (h.expression _) fun e e' he => .symbol rfl rfl ?_
  exact .pure he

/-- The kind of the next token decides. At the end no operand is left to be read. -/
lemma primary_follows : S.FollowsNode s (primary r) (primary r') := by
  refine .get_bind (fun k c c' hk hk' hvalue => ?_) fun c hc => ?_
  -- away from the end both readings see the same kind and value
  · have hmessage : (SyntaxFault.unexpected c.current).message =
        (SyntaxFault.unexpected c'.current).message := by
      rw [message_unexpected, message_unexpected, hk, hk', hvalue]
    dsimp only
    rw [hk, hk']
    split
    · exact .arrow_ite (.any (arrowFunction_follows h)) (parenthesized_follows h)
    · exact .any (array_follows h)
    · exact .object_ite (.any (object_follows h)) (.throw fun _ => hmessage)
    · exact numberLiteral_follows
    · exact stringLiteral_follows h
    · exact .step rfl rfl <| .pure rfl
    · exact .step rfl rfl <| .pure rfl
    · exact .step rfl rfl <| .pure rfl
    · exact nameOrArrow_follows h
    · exact .element_ite (.any (element_follows h)) (.throw fun _ => hmessage)
  · refine ⟨.unexpected c.current, ?_⟩
    rw [hc]
    dsimp only
    rw [bind_ok (atElement_run c), hc]
    rfl

lemma arguments_follows :
    S.Follows anyKind (.paren :: s) s .near (List.map unplaced) (arguments r)
      (arguments r') := by
  exact .skip_close (.collectSeparated .check_inner
    (.inner (h.expression _)) .skipNewlines) rfl rfl fun es es' hes => .pure hes

/-- Calls, members and indexes, as long as one follows. -/
lemma access_follows : S.FollowsNode s (access r) (access r') := by
  refine .bind (primary_follows h) fun e e' he => ?_
  refine .iterate (v := unplaced) (by simp) (fun e e' he => ?_) he
  refine .here_bind fun p p' => .peek_bind rfl fun k _ => ?_
  split
  · refine .step rfl rfl <| .yield (arguments_follows h) fun as as' has => ?_
    simp [he, has]
  · refine .step rfl rfl <| .yield .expectName fun a a' ha => ?_
    obtain rfl : a = a' := ha
    simp [he]
  · refine .step rfl rfl <| .bind (h.expression _) fun i i' hi => ?_
    refine .symbol rfl rfl <| .pure ?_
    simp [he, hi]
  · exact .pure (by simp [he])

/-- An operator is no bracket, so passing it leaves the brackets as they are. -/
lemma unary_follows : S.FollowsNode s (unary r) (unary r') := by
  refine .peek_bind rfl fun k _ => ?_
  cases hk : isUnaryOperator k with
  | false => exact .any (access_follows h)
  | true =>
    have hmark : isPlain k ∧ nestStep s k = some s := by
      unfold isUnaryOperator at hk
      split at hk <;> first | exact ⟨rfl, rfl⟩ | cases hk
    refine .here_bind fun p p' => .bind (.advance_kind hmark.1 hmark.2) fun t t' ht => ?_
    refine .yield (h.unary s) fun e e' he => ?_
    simp [(row_eq_iff.mp ht).2.1, he]

omit h in
lemma checkAny_run (marks : List Symbol) (c : Cursor) :
    checkAny marks c = .ok (isAny marks c.current.kind) c := by
  unfold checkAny
  rw [bind_ok (peek_run c)]
  cases c.current.kind <;> rfl

omit h in
/-- Symbols that are no brackets leave the brackets as they are. -/
lemma isAny_plain {k : Kind}
    (hmarks : ∀ mark ∈ marks, isPlain (.symbol mark) ∧ nestStep s (.symbol mark) = some s)
    (hk : isAny marks k = true) : isPlain k ∧ nestStep s k = some s := by
  cases k with
  | symbol mark => exact hmarks mark (by simpa [isAny] using hk)
  | _ => simp [isAny] at hk

omit h in
/-- Operators of one level between operands. -/
lemma binaryLevel_follows {operand operand' : Parse Node}
    (hmarks : ∀ mark ∈ marks, isPlain (.symbol mark) ∧ nestStep s (.symbol mark) = some s)
    (hoperand : S.FollowsNode s operand operand') :
    S.FollowsNode s (binaryLevel (checkAny marks) operand)
      (binaryLevel (checkAny marks) operand') := by
  refine .leftAssociative (checkAny_run marks)
    (fun hn => test_of_near hn (isAny marks) fun _ _ => rfl) ?_ ?_ hoperand
  · exact fun hc => isAny_plain hmarks hc
  · intro p p' op l l' r r' hl hr
    simp [hl, hr]

lemma multiplicative_follows : S.FollowsNode s (multiplicative r) (multiplicative r') :=
  binaryLevel_follows (by simp [isPlain, isInside, isSeparator, nestStep]) (unary_follows h)

lemma additive_follows : S.FollowsNode s (additive r) (additive r') :=
  binaryLevel_follows (by simp [isPlain, isInside, isSeparator, nestStep])
    (multiplicative_follows h)

/-- An angle bracket compares unless it opens an element, and that is seen alike. -/
lemma comparison_follows : S.FollowsNode s (comparison r) (comparison r') := by
  have hmarks : ∀ mark ∈ [Symbol.gt, .lte, .gte],
      isPlain (.symbol mark) ∧ nestStep s (.symbol mark) = some s := by
    simp [isPlain, isInside, isSeparator, nestStep]
  refine .leftAssociative (t := comparing) ?_ ?_ ?_ ?_ (additive_follows h)
  · intro c
    unfold isComparison comparing
    rw [bind_ok (check_run _ c)]
    cases hlt : c.current.kind == .symbol .lt
    · exact checkAny_run _ c
    · exact (bind_ok (atElement_run c)).trans (by rw [hlt]; rfl)
  · intro c c' hn
    unfold comparing
    rw [behind_of_near hn rfl (p := isTagName) fun _ _ => rfl,
      test_of_near hn (isAny [.gt, .lte, .gte]) fun _ _ => rfl,
      test_of_near hn (· == .symbol .lt) (blind_beq rfl)]
  · intro c hc
    unfold comparing at hc
    split_ifs at hc with hlt
    · rw [eq_of_beq hlt]
      exact ⟨rfl, rfl⟩
    · exact isAny_plain hmarks hc
  · intro p p' op l l' r r' hl hr
    simp [hl, hr]

lemma equality_follows : S.FollowsNode s (equality r) (equality r') :=
  binaryLevel_follows (by simp [isPlain, isInside, isSeparator, nestStep]) (comparison_follows h)

omit h in
/-- One operator between operands. -/
lemma logicalLevel_follows {mark : Symbol} {operand operand' : Parse Node}
    (hi : isPlain (.symbol mark)) (hs : nestStep s (.symbol mark) = some s)
    (hoperand : S.FollowsNode s operand operand') : S.FollowsNode s (logicalLevel mark operand)
      (logicalLevel mark operand') := by
  refine .leftAssociative (check_run _)
    (fun hn => test_of_near hn (· == .symbol mark) (blind_beq (isInside_of_isPlain hi)))
    ?_ ?_ hoperand
  · intro c hc
    rw [eq_of_beq hc]
    exact ⟨hi, hs⟩
  · intro p p' op l l' r r' hl hr
    simp [hl, hr]

lemma conjunction_follows : S.FollowsNode s (conjunction r) (conjunction r') :=
  logicalLevel_follows rfl rfl (equality_follows h)

lemma disjunction_follows : S.FollowsNode s (disjunction r) (disjunction r') :=
  logicalLevel_follows rfl rfl (conjunction_follows h)

lemma conditional_follows : S.FollowsNode s (conditional r) (conditional r') := by
  refine .bind (disjunction_follows h) fun e e' he => .here_bind fun p p' => ?_
  refine .accept_ite rfl rfl ?_ (.pure he)
  refine .bind (h.assignment s) fun a a' ha => .symbol rfl rfl ?_
  refine .yield (h.assignment s) fun b b' hb => ?_
  simp [he, ha, hb]

lemma assignment_follows : S.FollowsNode s (assignment r) (assignment r') := by
  refine .bind (conditional_follows h) fun e e' he => .here_bind fun p p' => ?_
  refine .accept_ite rfl rfl (.yield (h.assignment s) fun a a' ha => ?_) (.pure he)
  simp [he, ha]

lemma expression_follows : S.FollowsNode s (expression r) (expression r') := by
  refine .leftAssociative (checkAny_run _)
    (fun hn => test_of_near hn (isAny _) fun _ _ => rfl) ?_ ?_ (assignment_follows h)
  · exact fun hc => isAny_plain (by simp [isPlain, isInside, isSeparator, nestStep]) hc
  · intro p p' op l l' r r' hl hr
    simp [hl, hr]

/-! ### Statements -/

omit h in
/-- Names are the same in both readings. -/
lemma names_follows {closing : Symbol} {between between' : Parse Unit} {s₁ : List Bracket}
    (hi : isPlain (.symbol closing)) (hs : nestStep s (.symbol closing) = some s₁)
    (hbetween : S.Follows anyKind s s .inner id between between') :
    S.Follows anyKind s s₁ .near id (names closing between) (names closing between') := by
  exact .close (.collectSeparated (v := id) .check_inner (.inner .expectIdentifier) hbetween) hi hs
    fun ns ns' hns => .pure (by simpa using hns)

omit h in
lemma importDeclaration_follows :
    S.Follows (· = .keyword .importWord) s s .past unplaced importDeclaration
      importDeclaration := by
  refine .here_bind fun p p' => .step rfl rfl ?_
  refine .symbol rfl rfl ?_
  refine .bind_id (names_follows rfl rfl .skipNewlines) fun specifiers => ?_
  refine .bind (.expect rfl rfl) fun _ _ _ => .bind (.expect rfl rfl) fun t t' ht => ?_
  refine .yield .skipTerminator fun _ _ _ => ?_
  simp [(row_eq_iff.mp ht).2.1]

omit h in
/-- What is exported is seen without places. -/
lemma exportedName_unplaced (n : Node) : exportedName n.unplaced = exportedName n := by
  cases n with
  | arrow => rw [Node.unplaced_arrow]; rfl
  | _ => simp [exportedName]

/-- The names of what is declared are those of the declaration without places. -/
lemma exportDeclaration_follows :
    S.Follows (· = .keyword .exportWord) s s .past unplaced (exportDeclaration r)
      (exportDeclaration r') := by
  refine .here_bind fun p p' => .step rfl rfl ?_
  refine .accept_ite rfl rfl ?_ (.yield (h.statement s) fun n n' hn => ?_)
  · refine .bind_id (names_follows rfl rfl .skipNewlines) fun specifiers => ?_
    exact .yield .skipTerminator fun _ _ _ => rfl
  · rw [← exportedName_unplaced n, ← exportedName_unplaced n', hn]
    simp [hn]

lemma componentDeclaration_follows :
    S.Follows (· = .keyword .componentWord) s s .near unplaced (componentDeclaration r)
      (componentDeclaration r') := by
  refine .here_bind fun p p' => .step rfl rfl ?_
  refine .bind_id .expectIdentifier fun name => .accept_ite rfl rfl ?_ ?_
  · refine .close (params_follows h) rfl rfl fun ps ps' hps => ?_
    refine .yield (block_follows h) fun b b' hb => ?_
    simp [hps, hb]
  · refine .yield (block_follows h) fun b b' hb => ?_
    simp [hb]

omit h in
/-- The second token of `->` was seen before it is passed. -/
lemma resultType_eq (r : Rules) :
    resultType r = do
      if (← check (.symbol .minus)) && (← peekNext).any (·.kind == .symbol .gt) then
        let _ ← advance
        expectSymbol .gt
        return some (← r.typeExpr)
      else return none := by
  funext c
  unfold resultType
  rw [bind_ok (check_run _ c), bind_ok (check_run _ c), bind_ok (peekNext_run c),
    bind_ok (peekNext_run c)]
  split_ifs with hc
  · obtain ⟨-, hnext⟩ := Bool.and_eq_true_iff.mp hc
    cases hr : c.rest with
    | nil => simp [hr] at hnext
    | cons =>
      have ht : c.next.current.kind = .symbol .gt := by simpa [hr, Cursor.next] using hnext
      have hgt : expectSymbol .gt c.next = .ok () c.next.next := by
        rw [expectSymbol_run, if_pos ht]
      rw [bind_ok (advance_run c), bind_ok (advance_run c), bind_ok (advance_run c.next),
        bind_ok hgt]
  · rfl

/-- Whether `->` is next is seen alike from both cursors. -/
lemma resultType_follows : S.Follows anyKind s s .near id (resultType r) (resultType r') := by
  rw [resultType_eq, resultType_eq]
  refine .check_and_ite (Q := (· = .symbol .minus)) rfl peekNext_run ?_
    (fun hk _ => hk) ?_ (.pure rfl)
  · intro c c' hn hk
    exact head_of_near hn (by rw [hk]; rfl) (p := fun kind _ => kind == .symbol .gt)
      fun _ _ => rfl
  · refine .step rfl rfl <| .symbol rfl rfl ?_
    exact .bind_id (h.typeExpr s) fun _ => .pure rfl

lemma functionDeclaration_follows :
    S.Follows (· = .keyword .fnWord) s s .near unplaced (functionDeclaration r)
      (functionDeclaration r') := by
  refine .here_bind fun p p' => .step rfl rfl ?_
  refine .bind_id .expectIdentifier fun name => .symbol rfl rfl ?_
  refine .close (params_follows h) rfl rfl fun ps ps' hps => ?_
  refine .bind_id (resultType_follows h) fun result => ?_
  refine .yield (block_follows h) fun b b' hb => ?_
  simp [hps, hb]

/-- A name and its type as they are, and the value without places. -/
def unplacedValue (x : String × Option TypeExpr × Node) : String × Option TypeExpr × Node :=
  (x.1, x.2.1, x.2.2.unplaced)

lemma nameAndValue_follows :
    S.Follows anyKind s s .past unplacedValue (nameAndValue r) (nameAndValue r') := by
  refine .bind_id .expectIdentifier fun name => .bind_id (optionalType_follows h) fun written => ?_
  refine .symbol rfl rfl <| .bind (h.expression s) fun e e' he => ?_
  refine .yield .skipTerminator fun _ _ _ => ?_
  simp [unplacedValue, he]

lemma bindingDeclaration_follows {word : Keyword} :
    S.Follows (· = .keyword word) s s .past unplaced (bindingDeclaration r)
      (bindingDeclaration r') := by
  refine .here_bind fun p p' => .bind (.advance_kind rfl rfl) fun t t' ht => ?_
  refine .yield (nameAndValue_follows h) fun x x' hx => ?_
  simp only [unplacedValue, Prod.mk.injEq] at hx
  simp [hx, (row_eq_iff.mp ht).1]

lemma stateDeclaration_follows :
    S.Follows (· = .keyword .stateWord) s s .past unplaced (stateDeclaration r)
      (stateDeclaration r') := by
  refine .here_bind fun p p' => .step rfl rfl ?_
  refine .yield (nameAndValue_follows h) fun x x' hx => ?_
  simp only [unplacedValue, Prod.mk.injEq] at hx
  simp [hx]

lemma effectDeclaration_follows :
    S.Follows (· = .keyword .effectWord) s s .near unplaced (effectDeclaration r)
      (effectDeclaration r') := by
  refine .here_bind fun p p' => .step rfl rfl ?_
  refine .accept_ite rfl rfl ?_ ?_
  · refine .bind_id (names_follows rfl rfl (.inner (.pure rfl))) fun dependencies => ?_
    refine .yield (block_follows h) fun b b' hb => ?_
    simp [hb]
  · refine .bind_id (.pure rfl) fun dependencies => .yield (block_follows h) fun b b' hb => ?_
    simp [hb]

omit h in
/-- A semicolon is skipped with line ends anyway. -/
lemma skip_semicolon {α : Type} (f : Unit → Parse α) :
    (accept (.symbol .semicolon) >>= fun _ => skipNewlines >>= f) = skipNewlines >>= f := by
  funext c
  rw [bind_run, accept_run]
  split_ifs with hk
  · have hskip : c.next.skip = c.skip := by
      cases hr : c.rest with
      | nil => rw [Cursor.next_of_rest_nil hr]
      | cons => simp [Cursor.next, Cursor.skip, hr, dropSeparators, hk, isSeparator]
    simp only [bind_ok (skipNewlines_run _), hskip]
  · rfl

/-- Behind a property a comma or a semicolon may be missing. -/
lemma styleTail_follows (p p' : Place) (name : Option String) :
    S.FollowsNode s (styleTail r p name) (styleTail r' p' name) := by
  refine .symbol rfl rfl <|
    .skip_close (v := List.map unplacedEntry) (.collectUntil .check_inner ?_) rfl rfl ?_
  · refine .bind_inner (.inner (property_follows h)) fun a a' ha => ?_
    have hskip : S.Follows anyKind (.brace :: s) (.brace :: s) .inner unplacedEntry
        (do skipNewlines; return a) (do skipNewlines; return a') :=
      .bind_inner .skipNewlines fun _ _ _ => .inner (.pure ha)
    refine .comma_ite hskip ?_
    rw [skip_semicolon, skip_semicolon]
    exact hskip
  · intro ps ps' hps
    exact .pure (by simp [hps])

lemma styleDeclaration_follows :
    S.Follows (· = .keyword .styleWord) s s .near unplaced (styleDeclaration r)
      (styleDeclaration r') := by
  refine .here_bind fun p p' => .step rfl rfl ?_
  refine .check_ite rfl ?_ (styleTail_follows h p p' none)
  refine .bind_id (.map (.advance_kind rfl rfl) fun t t' ht => ?_) (styleTail_follows h p p')
  exact congrArg some (row_eq_iff.mp ht).2.1

lemma returnStatement_follows :
    S.Follows (· = .keyword .returnWord) s s .past unplaced (returnStatement r)
      (returnStatement r') := by
  refine .here_bind fun p p' => .step rfl rfl ?_
  refine .peek_bind rfl fun k _ => .ite (.yield .skipTerminator fun _ _ _ => rfl) ?_
  refine .any (.bind (.map (w := Option.map unplaced) (h.expression s) ?_) fun e e' he => ?_)
  · intro e e' he
    simp [he]
  · refine .yield .skipTerminator fun _ _ _ => ?_
    simp [he]

lemma blockStatement_follows : S.FollowsNode s (blockStatement r) (blockStatement r') := by
  refine .here_bind fun p p' => .yield (block_follows h) fun b b' hb => ?_
  simp [hb]

lemma expressionStatement_follows :
    S.Follows anyKind s s .past unplaced (expressionStatement r) (expressionStatement r') := by
  refine .here_bind fun p p' => .bind (expression_follows h) fun e e' he => ?_
  refine .yield .skipTerminator fun _ _ _ => ?_
  simp [he]

/-- The kind of the first token decides in both readings. -/
lemma statement_follows :
    S.Follows anyKind s s .past unplaced (statement r) (statement r') := by
  refine .peek_bind rfl fun k _ => ?_
  split
  · exact importDeclaration_follows
  · exact exportDeclaration_follows h
  · exact .past (componentDeclaration_follows h)
  · exact .past (functionDeclaration_follows h)
  · exact bindingDeclaration_follows h
  · exact bindingDeclaration_follows h
  · exact stateDeclaration_follows h
  · exact .past (effectDeclaration_follows h)
  · exact .past (styleDeclaration_follows h)
  · exact returnStatement_follows h
  · exact .any (ifElse_follows h)
  · exact .any (.past (forEach_follows h))
  · exact .object_ite (.any (expressionStatement_follows h))
      (.any (.past (blockStatement_follows h)))
  · exact .element_ite (.any (.past (element_follows h))) (.any (expressionStatement_follows h))

end

/-! ### Programs -/

/-- Productions to a depth follow those to a greater depth: the ones that give up are compared with
nothing. -/
lemma rules_follow (S : Simulation) : ∀ (n m : Nat), n ≤ m → S.RulesFollow (rules n) (rules m)
  | 0, _, _ => {
      expression := fun _ => .endless, assignment := fun _ => .endless, unary := fun _ => .endless
      statement := fun _ => .endless, element := fun _ => .endless, ifElse := fun _ => .endless
      typeExpr := fun _ => .endless, fragment := .endless }
  | n + 1, 0, hnm => absurd hnm (by omega)
  | n + 1, m + 1, hnm =>
    have h := rules_follow S n m (by omega)
    have hrows := rules_follow sameRows n m (by omega)
    { expression := fun _ => expression_follows h
      assignment := fun _ => assignment_follows h
      unary := fun _ => unary_follows h
      statement := fun _ => statement_follows h
      element := fun _ => element_follows h
      ifElse := fun _ => ifElse_follows h
      typeExpr := fun _ => typeExpr_follows h
      fragment := expression_follows hrows }

end UiScript.Syntax.Simulation
