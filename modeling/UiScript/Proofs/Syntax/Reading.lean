import UiScript.Proofs.Syntax.Readers
import UiScript.Proofs.Syntax.Segments

/-!
# What is read

Reading ends: each round of each loop passes a token, and so does each production before it uses
another one. Only grammatical trees are read: each production gives the trees that belong to it if
the productions one level down do, and so they do to any depth.
-/

namespace UiScript.Syntax

open List

open Token (Kind isWord)

/-! ### Names in markup -/

variable {L : Token → Prop} {t : Token} {name : String}

lemma isHyphenated_of_isWord (h : isWord name) : isHyphenated name.toList := by
  obtain ⟨c, cs, hname, hc, hcs⟩ := Token.isWord_iff h
  rw [hname, isHyphenated, hc, Bool.true_and, all_eq_true]
  exact fun d hd => Bool.or_eq_true_iff.mpr (.inl (all_eq_true.mp hcs d hd))

/-- Another word behind a hyphen. -/
lemma isHyphenated_append {word : String} (hname : isHyphenated name.toList)
    (hword : isWord word) : isHyphenated (name ++ "-" ++ word).toList := by
  have hword := isHyphenated_of_isWord hword
  unfold isHyphenated at *
  cases hn : name.toList with
  | nil => rw [hn] at hname; cases hname
  | cons =>
    cases hw : word.toList with
    | nil => rw [hw] at hword; cases hword
    | cons => simp_all [Token.isIdentifierChar_of_start]

lemma isAttributeName_of_isHyphenated (h : isHyphenated name.toList) : isAttributeName name := by
  unfold isAttributeName
  split
  · rename_i hname
    rw [hname] at h
    cases h
  · exact h

/-- The case of the first letter tells elements from components. -/
lemma tagNode_grammatical {place : Place} {tag : String} {attributes : List (Entry Node)}
    {inner : List Node} {selfClosing : Bool} (htag : Word L tag)
    (hletter : tag.toList.head?.any isAsciiLetter)
    (hattributes : ∀ e ∈ attributes, AttributeFits L e)
    (hinner : ∀ n ∈ inner, Drawn L .child n) (hclosing : selfClosing → inner = [])
    (pos : Position) : Drawn L pos (tagNode place tag attributes inner selfClosing) := by
  unfold tagNode
  split_ifs with hupper
  · have hmem {e : Entry Node} (he : e ∈ attributes.filter (·.value.isSome)) :
        e ∈ attributes ∧ e.value.isSome := mem_filter.mp he
    exact .use htag hupper (fun e he => (hattributes e (hmem he).1).1) (fun e he => (hmem he).2)
      (fun e he => (hattributes e (hmem he).1).2) hinner hclosing
  · refine .element htag ?_ (fun e he => (hattributes e he).1) (fun e he => (hattributes e he).2)
      hinner hclosing
    unfold startsWithin
    cases hhead : tag.toList.head? with
    | none => rw [hhead] at hletter; cases hletter
    | some c =>
      rw [hhead] at hletter hupper
      have hc : isAsciiUpper c = false := by simpa using hupper
      simpa [isAsciiLetter, hc] using hletter

/-! ### Parts of templates -/

/-- A mark opens a fragment, unless one does not end. -/
lemma exists_hole_of_hasHole {acc cs : List Char} (hhole : hasHole cs)
    (hclosed : (segments acc cs).2 = false) : ∃ fragment, .hole fragment ∈ (segments acc cs).1 := by
  fun_induction segments acc cs with
  | case1 => cases hhole
  | case2 => cases hclosed
  | case3 => exact ⟨_, mem_append_right _ mem_cons_self⟩
  | case4 acc c cs hne ih =>
    refine ih ?_ hclosed
    rwa [hasHole] at hhole
    exact hne

/-- Texts become texts and fragments become holes. -/
lemma isText_of_follows {parts : List (Part Node)} {segs : List Segment}
    (hparts : Forall₂ Part.Follows parts segs) :
    parts.map Part.isText = segs.map Segment.isText := by
  induction hparts with
  | nil => rfl
  | @cons part seg _ _ hpart _ ih =>
    rw [map_cons, map_cons, ih]
    cases part <;> cases seg <;> first | rfl | cases hpart

/-- A template has a hole, and no two texts of it stand side by side. -/
lemma template_drawn {parts : List (Part Node)} (ht : L t) (htemplate : t.template)
    (hhole : hasHole t.value.toList) (hclosed : (segments [] t.value.toList).2 = false)
    (hfollows : Forall₂ Part.Follows parts (segments [] t.value.toList).1)
    (hparts : ∀ e, .hole e ∈ parts → Drawn L .expression e) :
    Drawn L .expression (.template t.place parts) := by
  have hmap := isText_of_follows hfollows
  refine .template ?_ ?_ hparts ⟨t, ht, htemplate, rfl, hhole, hclosed, hfollows⟩
  · obtain ⟨fragment, hfragment⟩ := exists_hole_of_hasHole hhole hclosed
    have hmem : false ∈ parts.map Part.isText := by
      rw [hmap]
      exact mem_map_of_mem (f := Segment.isText) hfragment
    obtain ⟨part, hpart, htext⟩ := mem_map.mp hmem
    cases part with
    | text => cases htext
    | hole e => exact ⟨e, hpart⟩
  · obtain ⟨_, hsplits, -⟩ := segments_splits t.value.toList
    have hchain : ((segments [] t.value.toList).1.map Segment.isText).IsChain
        fun (a b : Bool) => ¬ (a ∧ b) :=
      (isChain_map _).mpr hsplits.alternate
    rw [← hmap] at hchain
    exact (isChain_map _).mp hchain

/-! ### Operators and exports -/

/-- The tokens of a source are spelled as their kinds say. -/
lemma mem_unaryOperators (ht : t.row.Genuine) (hkind : isUnaryOperator t.kind) :
    t.value ∈ unaryOperators := by
  obtain ⟨mark, hmark, hop⟩ : ∃ mark, t.kind = .symbol mark ∧ mark.spelling ∈ unaryOperators := by
    unfold isUnaryOperator at hkind
    split at hkind <;> first | exact ⟨_, ‹_›, by decide⟩ | cases hkind
  have hvalue : t.value = mark.spelling := ht.spelling hmark
  rwa [hvalue]

/-- The names of what an export declares. -/
lemma word_of_exportedName {n : Node} (hn : Drawn L .statement n) :
    ∀ name ∈ exportedName n, Word L name := by
  cases hn with
  | component hname => exact forall_mem_singleton.mpr hname
  | function hname => exact forall_mem_singleton.mpr hname
  | binding hname => exact forall_mem_singleton.mpr hname
  | _ => exact nofun

/-! ### The productions one level down -/

/-- The reader ends well and passes a token, and gives trees that belong in a position. -/
abbrev SafeNode (I : Input) (k : Nat) (pre : Cursor → Prop) (m : Parse Node) (pos : Position) :
    Prop :=
  Safe I k pre m Always (Drawn I.Among pos)

/-- All productions end well and pass a token, and give the trees that belong to them. -/
structure Rules.Safe (I : Input) (k : Nat) (r : Rules) : Prop where
  expression : SafeNode I k Anywhere r.expression .expression
  assignment : SafeNode I k Anywhere r.assignment .expression
  unary : SafeNode I k Anywhere r.unary .expression
  statement : SafeNode I k Anywhere r.statement .statement
  element : Syntax.Safe I k OpensTag r.element Always fun n => ∀ pos, Drawn I.Among pos n
  ifElse : Syntax.Safe I k Anywhere r.ifElse Always fun n =>
    ∀ pos ≠ .expression, Drawn I.Among pos n
  typeExpr : Syntax.Safe I k Anywhere r.typeExpr Always Always

variable {I : Input} {k : Nat} {pre : Cursor → Prop} {r : Rules} (h : r.Safe I k)
include h

/-! ### Types and parameters -/

/-- Each further argument passes a comma. -/
lemma typeArgumentStep_round : Round I k (typeArgumentStep r) Always Always :=
  fun _ _ => .accept_ite (by simp) (h.typeExpr.bind fun _ _ => .skip fun _ => trivial)
    (.last fun _ => trivial)

/-- The name of a type is passed before its arguments are read. -/
lemma typeExpr_safe : Safe I (k + 1) pre (typeExpr r) Always Always := by
  refine .after .expectIdentifier fun name _ => .accept_ite (by simp) ?_ .idle
  refine h.typeExpr.bind fun first _ => ?_
  refine .bind (.iterate (typeArgumentStep_round h) fun _ => trivial) fun _ _ => ?_
  exact .symbol <| .idle

/-- Nothing is passed where no type is written. -/
lemma optionalType_safe : Safe I k pre (optionalType r) Never Always :=
  .accept_ite (by simp) (h.typeExpr.bind fun _ _ => .idle) .idle

/-- A parameter is a word, and its default is an expression. -/
lemma param_safe : Safe I (k + 1) pre (param r) Always (ParamFits I.Among) := by
  refine .after .expectIdentifier fun name hname => (optionalType_safe h).bind fun written _ => ?_
  refine .accept_ite (by simp) ?_ ?_
  · exact .bind (.given h.expression) fun _ hvalue => .skip fun g => ⟨hname g, hvalue g⟩
  · exact .bind .missing fun _ hvalue => .skip fun g => ⟨hname g, hvalue g⟩

lemma paramStep_round : Collects I k (paramStep r) (ParamFits I.Among) :=
  separatedStep_round (.test (check_run _)) (param_safe h).lower .skipNewlines

lemma params_safe : Safe I k pre (params r) Never fun ps => ∀ p ∈ ps, ParamFits I.Among p :=
  .newlines <| .collect (paramStep_round h)

/-! ### Blocks -/

omit h in
/-- Line ends behind an item may be passed. -/
lemma withNewlines_safe {α : Type} {item : Parse α} {Q : α → Prop}
    (hitem : Safe I k Anywhere item Always Q) : Safe I k Anywhere (withNewlines item) Always Q :=
  hitem.past fun _ ha => .newlines <| .skip ha

lemma blockStep_round : Collects I k (blockStep r) (Drawn I.Among .statement) := by
  refine untilStep_round (.test (v := fun c => c.current.kind == .symbol .rightBrace ||
    c.current.kind == .endOfFile) fun _ => rfl) ?_
  exact withNewlines_safe h.statement

/-- The opening brace is passed, so the statements may be read one level down. -/
lemma block_safe :
    Safe I (k + 1) pre (block r) Always fun ns => ∀ n ∈ ns, Drawn I.Among .statement n := by
  have hbody : Safe I k Anywhere (blockBody r) Never fun ns =>
      ∀ n ∈ ns, Drawn I.Among .statement n :=
    .newlines <| .collect (blockStep_round h)
  exact .after .expectSymbol fun _ _ => hbody.bind fun _ hns =>
    .symbol <| .skip hns

/-- A conditional stands among statements and in markup, and is no expression. -/
lemma ifElse_safe :
    Safe I (k + 1) pre (ifElse r) Always fun n => ∀ pos ≠ .expression, Drawn I.Among pos n := by
  refine .read here_run fun place => .after (.expectKind (by simp)) fun _ _ => ?_
  refine h.expression.bind fun e he => (block_safe h).lower.bind fun yes hyes => ?_
  refine .newlines <| .accept_ite (by simp) ?_ ?_
  · refine .read (check_run _) fun _ => .ite (fun _ => ?_) fun _ => ?_
    · refine h.ifElse.anywhere.bind fun n hn => .skip fun g pos hpos =>
        .ifElse hpos (he g) (hyes g) ?_
      rintro _ ⟨⟩
      exact forall_mem_singleton.mpr (hn g .statement nofun)
    · refine (block_safe h).lower.bind fun no hno => .skip fun g pos hpos =>
        .ifElse hpos (he g) (hyes g) ?_
      rintro _ ⟨⟩
      exact hno g
  · exact .skip fun g pos hpos => .ifElse hpos (he g) (hyes g) nofun

lemma forEach_safe :
    Safe I (k + 1) pre (forEach r) Always fun n => ∀ pos ≠ .expression, Drawn I.Among pos n := by
  refine .read here_run fun place => .after (.expectKind (by simp)) fun _ _ => ?_
  refine .bind .expectIdentifier fun name hname => .bind (.expectKind (by simp)) fun _ _ => ?_
  refine h.expression.bind fun e he => (block_safe h).lower.bind fun body hbody => ?_
  exact .skip fun g pos hpos => .forEach hpos (hname g) (he g) (hbody g)

/-! ### Markup -/

/-- A name of words that come from tokens, with hyphens between them. -/
def Hyphenated (L : Token → Prop) (name : String) : Prop :=
  isHyphenated name.toList ∧ ∃ words ≠ [], (∀ word ∈ words, Valued L word) ∧
    name = String.intercalate "-" words

omit h in
/-- Each round puts a word behind the name; at the end it is a label. -/
lemma hyphenStep_round : Round I k hyphenStep (Hyphenated I.Among) (Label I.Among) := by
  refine fun name hname => .accept_ite (by simp) ?_ (.last fun g => ?_)
  · refine .bind .expectName fun word hword => .skip fun g => ?_
    obtain ⟨hhyphens, words, hne, hwords, heq⟩ := hname g
    refine ⟨isHyphenated_append hhyphens (hword g).1, words ++ [word], by simp, ?_, ?_⟩
    · exact forall_mem_append.mpr ⟨hwords, forall_mem_singleton.mpr (hword g).2⟩
    · rw [String.intercalate_append_of_ne_nil hne (cons_ne_nil _ _), heq,
        String.intercalate_singleton]
  · obtain ⟨hhyphens, words, -, hwords, heq⟩ := hname g
    exact ⟨isAttributeName_of_isHyphenated hhyphens, words, hwords, .inl heq⟩

omit h in
lemma attributeName_safe : Safe I k pre attributeName Always (Label I.Among) := by
  refine .accept_ite (by simp) ?_ ?_
  · refine .bind .expectName fun name hname => .skip fun g => ⟨?_, [name], ?_, .inr ?_⟩
    · rw [isAttributeName, String.toList_append]
      exact isHyphenated_of_isWord (hname g).1
    · exact forall_mem_singleton.mpr (hname g).2
    · rw [String.intercalate_singleton]
  · refine .past .expectName fun name hname => .iterate hyphenStep_round fun g => ?_
    exact ⟨isHyphenated_of_isWord (hname g).1, [name], cons_ne_nil _ _,
      forall_mem_singleton.mpr (hname g).2, (String.intercalate_singleton ..).symm⟩

/-- An expression between braces, a string or an operand. -/
lemma attributeValue_safe : Safe I k pre (attributeValue r) Never (Drawn I.Among .expression) := by
  refine .accept_ite (by simp) ?_ (.read (check_run _) fun isString => .ite (fun hstring => ?_) ?_)
  · exact h.expression.bind fun _ he => .symbol <| .skip he
  · have hkind (c : Cursor) (hc : Anywhere c ∧ (c.current.kind == .string) = isString) :
        c.current.kind = .string := eq_of_beq (hc.2.trans hstring)
    refine .bind (Q := fun t => Quoted I.Among t.place t.value) (.advance ?_ ?_) ?_
    · exact fun c hc => by simp [hkind c hc]
    · exact fun c hlexed hc => hlexed.quoted (hkind c hc)
    · exact fun t ht => .skip fun g => .string (ht g)
  · exact fun _ => h.unary.anywhere.never

/-- An attribute passes its name. -/
lemma attributeStep_round : Collects I k (attributeStep r) (AttributeFits I.Among) := by
  have hattribute : Safe I k Anywhere (tagAttribute r) Always (AttributeFits I.Among) := by
    refine attributeName_safe.past fun name hname => .accept_ite (by simp) ?_ ?_
    · exact .bind (.given (attributeValue_safe h)) fun _ hvalue =>
        .skip fun g => ⟨hname g, hvalue g⟩
    · exact .bind .missing fun _ hvalue => .skip fun g => ⟨hname g, hvalue g⟩
  refine untilStep_round (.test (v := fun c => isTagEnd c.current.kind) fun _ => rfl) ?_
  exact withNewlines_safe hattribute

omit h in
/-- The end is no text, so each round passes a word. -/
lemma textStep_round : Collects I k textStep (Valued I.Among) := by
  intro acc hacc
  refine .read (v := fun c => !isTextToken c.current.kind) (fun _ => rfl) fun done => ?_
  refine .ite (fun _ => .collected hacc) fun hmore => .past ?_ fun _ hword => .another hword hacc
  refine .past (.token ?_) fun _ ht => .skip ht
  rintro c ⟨-, hdone⟩ hend
  rw [hend] at hdone
  exact hmore hdone.symm

omit h in
/-- The first word is passed without being looked at again. -/
lemma textRun_safe (hpre : ∀ c, pre c → c.current.kind ≠ .endOfFile) :
    SafeNode I k pre textRun .child :=
  .past (.token hpre) fun _ hfirst => .bind (.collect textStep_round) fun _ hwords =>
    .skip fun g => .text ⟨_, forall_mem_cons.mpr ⟨hfirst g, hwords g⟩, rfl⟩

/-- Between braces stands a conditional, a loop or an expression. -/
lemma bracedItem_safe (place : Place) :
    Safe I k pre (bracedItem r place) Never (Drawn I.Among .child) := by
  refine .read peek_run fun kind => ?_
  split
  · exact (ifElse_safe h).lower.never.imp fun _ hn => hn .child nofun
  · exact (forEach_safe h).lower.never.imp fun _ hn => hn .child nofun
  · exact h.expression.anywhere.map fun _ he => .interpolation he

lemma bracedChild_safe :
    SafeNode I (k + 1) (·.current.kind = .symbol .leftBrace) (bracedChild r) .child := by
  refine .read here_run fun place => .after (.token fun c hc => by simp [hc.1]) fun _ _ => ?_
  exact .newlines <| (bracedItem_safe h place).bind fun _ hn => .newlines <| .symbol <| .skip hn

/-- Each child passes a token: a brace, a tag, a string or a word. -/
lemma childStep_round : Collects I k (childStep r) (Drawn I.Among .child) := by
  intro acc hacc
  refine .newlines <| .read atClosingTag_run fun _ => .ite ?_ fun _ => ?_
  · exact fun _ => .collected hacc
  -- no closing tag is next, so there is another child or the children end here
  refine .read (check_run _) fun isBrace => .ite (fun hbrace => ?_) fun _ => .element_ite ?_ ?_
  · refine .past ((bracedChild_safe h).lower.weaken ?_) fun _ hn => .another hn hacc
    rintro c ⟨-, hkind⟩
    rwa [hbrace, beq_iff_eq] at hkind
  · exact h.element.past fun n hn => .another (fun g => hn g .child) hacc
  refine .read peek_run fun kind => ?_
  split
  · refine .past (.token fun c hc => by simp [hc.2]) fun t ht => .another (fun g => ?_) hacc
    exact .text ⟨[t.value], forall_mem_singleton.mpr (ht g),
      (String.intercalate_singleton ..).symm⟩
  · exact .past (textRun_safe fun c hc => by simp [hc.2]) fun _ hn => .another hn hacc
  · exact .past (textRun_safe fun c hc => by simp [hc.2]) fun _ hn => .another hn hacc
  · exact .collected hacc

/-- An element fits every position. Its first token has to open a tag, so that its name starts with
a letter. -/
lemma element_safe :
    Safe I (k + 1) OpensTag (element r) Always fun n => ∀ pos, Drawn I.Among pos n := by
  -- the name of the tag is the token behind the bracket
  have htag : Safe I k (fun d => ∃ c, OpensTag c ∧ d = c.next) expectIdentifier Always fun tag =>
      Word I.Among tag ∧ tag.toList.head?.any isAsciiLetter := by
    refine .identifier ?_
    rintro _ - ⟨c, hopens, rfl⟩ hword
    refine ⟨hword, ?_⟩
    unfold OpensTag at hopens
    cases hrest : c.rest with
    | nil => simp [hrest] at hopens
    | cons =>
      rw [hrest] at hopens
      simp only [Cursor.next, hrest]
      exact (Bool.and_eq_true_iff.mp (Bool.and_eq_true_iff.mp hopens).2).2
  refine .read here_run fun place => .symbol_bind (.bind (htag.weaken ?_) fun tag htag => ?_)
  · rintro _ ⟨c, ⟨hopens, -⟩, rfl⟩
    exact ⟨c, hopens, rfl⟩
  refine .newlines <| .bind (.collect (attributeStep_round h)) fun es hes => ?_
  refine .accept_ite (by simp) (.symbol <| .skip fun g => ?_) ?_
  · exact tagNode_grammatical (htag g).1 (htag g).2 (hes g) (by simp) fun _ => rfl
  refine .symbol <| .bind (.collect (childStep_round h)) fun inner hinner => ?_
  refine .symbol <| .symbol ?_
  -- another name in the closing tag is a fault
  refine .expect_bind (by simp) fun closing hclosing => .ite (fun _ => ?_) fun _ => ?_
  · exact .throw_bind (hclosing.blame rfl)
  · refine .symbol <| .skip fun g => ?_
    exact tagNode_grammatical (htag g).1 (htag g).2 (hes g) (hinner g) (by simp)

/-! ### Literals -/

/-- A property has a word or a string for its key, and always a value. -/
lemma property_safe : Safe I (k + 1) pre (property r) Always (PropertyFits I.Among) := by
  have hkey : Safe I (k + 1) pre propertyKey Always (Valued I.Among) := by
    refine .read (check_run _) fun isString => .ite (fun hstring => ?_) fun _ => ?_
    · refine .past (.token fun c hc => ?_) fun _ ht => .skip ht
      simp [eq_of_beq (hc.2.trans hstring)]
    · exact Safe.expectName.imp fun _ hname => hname.2
  refine hkey.after fun key hkey => .symbol <| h.expression.bind fun e he => ?_
  refine .skip fun g => ⟨⟨rfl, ?_⟩, hkey g⟩
  rintro v ⟨⟩
  exact he g

omit h in
/-- A comma behind an item may be missing. -/
lemma withComma_safe {α : Type} {item : Parse α} {Q : α → Prop}
    (hitem : Safe I k Anywhere item Always Q) : Safe I k Anywhere (withComma item) Always Q :=
  hitem.past fun _ ha => .bind (.accept (by simp)) fun _ _ =>
    .newlines <| .skip ha

lemma propertyStep_round : Collects I k (propertyStep r) (PropertyFits I.Among) :=
  untilStep_round (.test (check_run _)) (withComma_safe (property_safe h).lower)

lemma object_safe : SafeNode I (k + 1) pre (object r) .expression := by
  refine .read here_run fun place => .after .expectSymbol fun _ _ => ?_
  refine .newlines <| .bind (.collect (propertyStep_round h)) fun es hes => .symbol ?_
  exact .skip fun g => .object (fun e he => (hes g e he).1.1) (fun e he => (hes g e he).1.2)
    fun e he => (hes g e he).2

lemma elementStep_round : Collects I k (elementStep r) (Drawn I.Among .expression) :=
  untilStep_round (.test (check_run _)) (withComma_safe h.expression)

lemma array_safe : SafeNode I (k + 1) pre (array r) .expression := by
  refine .read here_run fun place => .after .expectSymbol fun _ _ => ?_
  refine .newlines <| .bind (.collect (elementStep_round h)) fun es hes => .symbol ?_
  exact .skip fun g => .array (hes g)

/-- The body of an arrow function is a block or an expression. -/
lemma arrowBody_safe {place : Place} {ps : List (Param Node)}
    (hps : I.genuine → ∀ p ∈ ps, ParamFits I.Among p) :
    Safe I k pre (arrowBody r) Never fun body =>
      Drawn I.Among .expression (.arrow place ps body) := by
  have hnames (g : I.genuine) : ∀ p ∈ ps, Word I.Among p.name := fun p hp => (hps g p hp).1
  have hdefaults (g : I.genuine) : ∀ p ∈ ps, ∀ v ∈ p.default, Drawn I.Among .expression v :=
    fun p hp => (hps g p hp).2
  refine .read (check_run _) fun _ => .read atObject_run fun _ => .ite (fun _ => ?_) fun _ => ?_
  · exact (block_safe h).lower.bind fun _ hbody => .skip fun g =>
      .arrow (hnames g) (hdefaults g) (hbody g)
  · exact h.expression.anywhere.bind fun _ he => .skip fun g =>
      .arrowValue (hnames g) (hdefaults g) (he g)

lemma arrowFunction_safe : SafeNode I (k + 1) pre (arrowFunction r) .expression := by
  refine .read here_run fun place => .after .expectSymbol fun _ _ => ?_
  refine (params_safe h).bind fun ps hps => .symbol ?_
  refine .symbol ?_
  exact (arrowBody_safe h hps).bind fun _ hbody => .skip hbody

/-- A fragment is read from tokens of its own, which nest less deep than its template. -/
lemma embedded_safe {us : List Token} {fragment : List Char}
    (hus : Within I.file I.tokens us) (ht : t ∈ us) (hkind : t.kind = .string)
    (htemplate : t.template) (hamong : I.genuine → I.Among t)
    (hhole : .hole fragment ∈ (segments [] t.value.toList).1) (hk : t.value.length ≤ k) :
    Safe I k pre (embedded r (String.ofList fragment) t) Never (Drawn I.Among .expression) := by
  intro c hc _
  unfold embedded
  rw [bind_ok (get_run c)]
  cases htokens : Token.tokenize (String.ofList fragment) c.file with
  | error => exact .lexical hus ht hkind htemplate hhole (hc.file ▸ htokens)
  | ok =>
    obtain ⟨ws, w, rfl, hw⟩ := tokenize_ended htokens
    have hgenuine := Token.tokenize_genuine htokens
    -- the fragment is shorter than its template, so its tokens nest less deep
    have hbound : nestingBound (ws ++ [w]) ≤ k := by
      have hlength := nestingBound_tokenize htokens
      have hfragment := length_fragment hhole
      rw [String.length_ofList] at hlength
      rw [String.length_toList] at hfragment
      omega
    cases hvs : ws ++ [w] with
    | nil => simp at hvs
    | cons u rest =>
      rw [hvs] at hgenuine hbound
      let inner : Cursor := { c with
        current := u, rest, fragments := (rest.length + 1) :: c.fragments }
      have hinner : inner.Fits I k := {
        within := ⟨u :: rest, hvs ▸ .fragment hus ht hkind htemplate hhole (hc.file ▸ htokens),
          suffix_refl _⟩
        ended := ⟨ws, w, hvs.symm, hw⟩
        bound := hbound
        file := hc.file
        numerals := fun v hv => isNumeral_of_genuine (hgenuine v hv)
        lexed := fun g v hv => ⟨hgenuine v hv,
          I.closed g t (hamong g) htemplate fragment hhole _ _ htokens v (hvs ▸ hv)⟩ }
      have hbody : Safe I k Anywhere (fragmentBody r) Never (Drawn I.Among .expression) :=
        .newlines (withNewlines_safe h.expression).never
      -- what is left of the fragment behind the expression is at fault
      have hread := hbody inner hinner trivial
      dsimp only
      rw [bind_ok (set_run c inner), bind_run]
      cases hrun : fragmentBody r inner with
      | error =>
        rw [hrun] at hread
        exact hread
      | ok e d =>
        rw [hrun] at hread
        dsimp only
        rw [bind_ok (get_run d)]
        split_ifs
        · exact .grammar hus ht rfl
        · exact ⟨suffix_refl _, rfl, False.elim, hread.2.2.2⟩

/-- The parts follow the segments of the template one by one. -/
lemma templateParts_safe {us : List Token} (hus : Within I.file I.tokens us)
    (ht : t ∈ us) (hkind : t.kind = .string) (htemplate : t.template)
    (hamong : I.genuine → I.Among t) (hk : t.value.length ≤ k) {segs : List Segment}
    (hsegs : segs ⊆ (segments [] t.value.toList).1) :
    Safe I k pre (templateParts r t segs) Never fun parts =>
      Forall₂ Part.Follows parts segs ∧
        ∀ e, .hole e ∈ parts → Drawn I.Among .expression e := by
  induction segs generalizing pre with
  | nil => exact .skip fun _ => ⟨.nil, nofun⟩
  | cons seg segs ih =>
    obtain ⟨hseg, hrest⟩ := cons_subset.mp hsegs
    cases seg with
    | text =>
      refine (ih hrest).bind fun parts hparts => .skip fun g => ?_
      refine ⟨.cons rfl (hparts g).1, fun e he => ?_⟩
      exact (hparts g).2 e (by simpa using he)
    | hole =>
      refine (embedded_safe h hus ht hkind htemplate hamong hseg hk).bind fun e he => ?_
      refine (ih hrest).bind fun parts hparts => .skip fun g => ?_
      refine ⟨.cons trivial (hparts g).1, fun e' he' => ?_⟩
      rcases mem_cons.mp he' with he' | he'
      · cases he'
        exact he g
      · exact (hparts g).2 e' he'

/-- A template counts with its characters, so its fragments may be read one level down. -/
lemma stringLiteral_safe :
    SafeNode I (k + 1) (·.current.kind = .string) (stringLiteral r) .expression := by
  refine .advance_bind (fun c hkind => by simp [hkind]) fun c hc hkind => .ite (fun hhole => ?_) ?_
  -- with a fragment in it the token is a template, and else it is a plain string
  · obtain ⟨us, hus, hmem⟩ := hc.current_mem
    obtain ⟨htemplate, hhole⟩ := Bool.and_eq_true_iff.mp hhole
    have hamong (g : I.genuine) : I.Among c.current := (hc.lexed g _ mem_cons_self).2
    have hlength : c.current.value.length ≤ k := by
      have hbound := hc.bound
      have hweight : rowWeight c.current.row = c.current.value.length + 1 := if_pos htemplate
      rw [Cursor.tokens, nestingBound_cons, hweight] at hbound
      omega
    refine (templateParts_safe h hus hmem hkind htemplate hamong hlength (List.Subset.refl _)).bind
      fun parts hparts => .ite (fun _ => .throw_bind (.grammar hus hmem rfl)) fun hend => ?_
    exact .skip fun g => template_drawn (hamong g) htemplate hhole (Bool.eq_false_iff.mpr hend)
      (hparts g).1 (hparts g).2
  · exact fun _ => .skip fun g => .string ((hc.lexed g).quoted hkind)

omit h in
/-- A numeral stands for a number, unless it is an integer with too many digits. -/
lemma numberLiteral_safe :
    SafeNode I (k + 1) (·.current.kind = .number) numberLiteral .expression := by
  refine .advance_bind (fun c hkind => by simp [hkind]) fun c hc hkind => ?_
  obtain ⟨us, hus, hmem⟩ := hc.current_mem
  rcases Numeral.readNumber_of_isNumeral (hc.numerals _ mem_cons_self hkind) with
    ⟨n, hn⟩ | ⟨hdigits, hlong, hn⟩
  · rw [hn]
    exact .skip fun _ => .number
  · rw [hn]
    exact .throw fun _ _ _ => .digits hus hmem hkind hdigits hlong

/-! ### Operands -/

/-- A name in front of an arrow is the parameter of a function. -/
lemma nameOrArrow_safe :
    SafeNode I (k + 1) (·.current.kind = .identifier) (nameOrArrow r) .expression := by
  refine .after (Q := fun t => Word I.Among t.value) (.advance ?_ fun c hc hkind => ?_)
    fun t ht => ?_
  · exact fun c hkind => by simp [hkind]
  · exact hc.word (by simp [hkind, isName])
  · refine .accept_ite (by simp) ?_ (.skip fun g => .identifier (ht g))
    have hps (g : I.genuine) : ∀ p ∈ [(⟨t.value, none, none⟩ : Param Node)], ParamFits I.Among p :=
      forall_mem_singleton.mpr ⟨ht g, fun _ hdefault => by cases hdefault⟩
    exact (arrowBody_safe h hps).bind fun _ hbody => .skip hbody

lemma parenthesized_safe :
    SafeNode I (k + 1) (·.current.kind = .symbol .leftParen) (parenthesized r) .expression :=
  .after (.token fun c hkind => by simp [hkind]) fun _ _ => h.expression.bind fun _ he =>
    .symbol <| .skip he

/-- The first token tells what an operand is. -/
lemma primary_safe : SafeNode I (k + 1) pre (primary r) .expression := by
  refine .read get_run fun c => ?_
  dsimp only
  have hword {n : Node} (hkind : c.current.kind ≠ .endOfFile) (hn : Drawn I.Among .expression n) :
      Safe I (k + 1) (fun d => pre d ∧ d = c) (do let _ ← advance; return n) Always
        (Drawn I.Among .expression) :=
    .past (.token fun d hd => hd.2 ▸ hkind) fun _ _ => .skip fun _ => hn
  -- the token that nothing starts with is at fault
  have hblame {must P : Node → Prop} :
      Safe I (k + 1) (fun d => pre d ∧ d = c) (throw (.unexpected c.current)) must P := by
    refine .throw ?_
    rintro d hd ⟨-, rfl⟩
    exact hd.blame rfl
  split
  · rename_i hkind
    refine .read atArrowFunction_run fun _ => .ite (fun _ => arrowFunction_safe h) fun _ => ?_
    exact (parenthesized_safe h).weaken fun d hd => hd.1.2 ▸ hkind
  · exact array_safe h
  · exact .read atObject_run fun _ => .ite (fun _ => object_safe h) fun _ =>
      hblame.weaken fun _ hd => hd.1
  · rename_i hkind
    exact numberLiteral_safe.weaken fun d hd => hd.2 ▸ hkind
  · rename_i hkind
    exact (stringLiteral_safe h).weaken fun d hd => hd.2 ▸ hkind
  · rename_i hkind
    exact hword (by simp [hkind]) .boolean
  · rename_i hkind
    exact hword (by simp [hkind]) .boolean
  · rename_i hkind
    exact hword (by simp [hkind]) .null
  · rename_i hkind
    exact (nameOrArrow_safe h).weaken fun d hd => hd.2 ▸ hkind
  · exact .element_ite ((element_safe h).imp fun n hn => hn .expression) hblame

lemma argumentStep_round : Collects I k (argumentStep r) (Drawn I.Among .expression) :=
  separatedStep_round (.test (check_run _)) h.expression .skipNewlines

lemma arguments_safe :
    Safe I k pre (arguments r) Never fun ns => ∀ n ∈ ns, Drawn I.Among .expression n :=
  .newlines <| .bind (.collect (argumentStep_round h)) fun _ hns =>
    .symbol <| .skip hns

/-- A call, a member and an index each pass their first token. -/
lemma accessStep_round :
    Round I k (accessStep r) (Drawn I.Among .expression) (Drawn I.Among .expression) := by
  refine fun e he => .read here_run fun place => .read peek_run fun kind => ?_
  split
  · refine .past (.token fun c hc => by simp [hc.2]) fun _ _ => ?_
    exact (arguments_safe h).bind fun _ hns => .skip fun g => Drawn.call (he g) (hns g)
  · refine .past (.token fun c hc => by simp [hc.2]) fun _ _ => ?_
    exact .bind .expectName fun _ hname => .skip fun g => Drawn.member (he g) (hname g)
  · refine .past (.token fun c hc => by simp [hc.2]) fun _ _ => h.expression.bind fun _ hi => ?_
    exact .symbol <| .skip fun g => Drawn.index (he g) (hi g)
  · exact .last he

lemma access_safe : SafeNode I (k + 1) pre (access r) .expression :=
  (primary_safe h).after fun _ he => .iterate (accessStep_round h) he

/-- An operator is passed before its operand is read. -/
lemma unary_safe : SafeNode I (k + 1) pre (unary r) .expression := by
  refine .read peek_run fun kind => .ite (fun hop => ?_) fun _ => access_safe h
  refine .read here_run fun place => .after (Q := fun t => t.value ∈ unaryOperators)
    (.advance ?_ fun c hc hpre => ?_) fun t ht => ?_
  · rintro c ⟨⟨-, hkind⟩, -⟩ hend
    rw [← hkind, hend] at hop
    cases hop
  · exact mem_unaryOperators hc.current (hpre.1.2 ▸ hop)
  · exact h.unary.bind fun _ he => .skip fun g => .unary (ht g) (he g)

/-! ### Operators -/

section Levels

omit h

variable {isOperator : Parse Bool} {operand : Parse Node} {marks : List Symbol} {mark : Symbol}
  (hoperand : SafeNode I (k + 1) Anywhere operand .expression)
include hoperand

/-- An operand follows each operator of a level. -/
lemma binaryStep_round (hop : Recognizes isOperator marks)
    (hmarks : ∀ mark ∈ marks, mark.spelling ∈ binaryOperators) :
    Round I k (binaryStep isOperator operand) (Drawn I.Among .expression)
      (Drawn I.Among .expression) :=
  operatorStep_round hop hoperand fun _ _ _ mark hmark hleft hright =>
    .binary (hmarks mark hmark) hleft hright

lemma binaryLevel_safe (hop : Recognizes isOperator marks)
    (hmarks : ∀ mark ∈ marks, mark.spelling ∈ binaryOperators) :
    SafeNode I (k + 1) pre (binaryLevel isOperator operand) .expression :=
  leftAssociative_safe hoperand (binaryStep_round hoperand hop hmarks)

lemma logicalStep_round (hmark : mark.spelling ∈ binaryOperators) :
    Round I k (logicalStep mark operand) (Drawn I.Among .expression) (Drawn I.Among .expression) :=
  operatorStep_round (recognizes_check mark) hoperand fun _ _ _ _ _ hleft hright =>
    .binary hmark hleft hright

lemma logicalLevel_safe (hmark : mark.spelling ∈ binaryOperators) :
    SafeNode I (k + 1) pre (logicalLevel mark operand) .expression :=
  leftAssociative_safe hoperand (logicalStep_round hoperand hmark)

end Levels

lemma multiplicative_safe : SafeNode I (k + 1) pre (multiplicative r) .expression :=
  binaryLevel_safe (unary_safe h) (recognizes_checkAny _) (by decide)

lemma additive_safe : SafeNode I (k + 1) pre (additive r) .expression :=
  binaryLevel_safe (multiplicative_safe h) (recognizes_checkAny _) (by decide)

lemma comparison_safe : SafeNode I (k + 1) pre (comparison r) .expression :=
  binaryLevel_safe (additive_safe h) recognizes_isComparison (by decide)

lemma equality_safe : SafeNode I (k + 1) pre (equality r) .expression :=
  binaryLevel_safe (comparison_safe h) (recognizes_checkAny _) (by decide)

lemma conjunction_safe : SafeNode I (k + 1) pre (conjunction r) .expression :=
  logicalLevel_safe (equality_safe h) (by decide)

lemma disjunction_safe : SafeNode I (k + 1) pre (disjunction r) .expression :=
  logicalLevel_safe (conjunction_safe h) (by decide)

lemma conditional_safe : SafeNode I (k + 1) pre (conditional r) .expression := by
  refine (disjunction_safe h).after fun e he => .read here_run fun place => ?_
  refine .accept_ite (by simp) (h.assignment.bind fun yes hyes => ?_) (.skip he)
  exact .symbol <| h.assignment.bind fun no hno =>
    .skip fun g => .conditional (he g) (hyes g) (hno g)

lemma assignment_safe : SafeNode I (k + 1) pre (assignment r) .expression := by
  refine (conditional_safe h).after fun e he => .read here_run fun place => ?_
  exact .accept_ite (by simp) (h.assignment.bind fun _ hvalue => .skip fun g =>
    .assign (he g) (hvalue g)) (.skip he)

/-- Pipes group to the left, as the operators of a level do. -/
lemma pipeStep_round :
    Round I k (pipeStep r) (Drawn I.Among .expression) (Drawn I.Among .expression) :=
  operatorStep_round (recognizes_checkAny _) (assignment_safe h) fun _ _ _ _ _ hleft hright =>
    .pipe hleft hright

lemma expression_safe : SafeNode I (k + 1) pre (expression r) .expression :=
  leftAssociative_safe (assignment_safe h) (pipeStep_round h)

/-! ### Statements -/

section Names

omit h

variable {closing : Symbol} {between : Parse Unit}
  (hbetween : Safe I k Anywhere between Never Always)
include hbetween

lemma nameStep_round : Collects I k (nameStep closing between) (Word I.Among) :=
  separatedStep_round (.test (check_run _)) .expectIdentifier hbetween

/-- Names up to a closing mark. -/
lemma names_safe : Safe I k pre (names closing between) Never fun ns => ∀ n ∈ ns, Word I.Among n :=
  .bind (.collect (nameStep_round hbetween)) fun _ hns => .symbol <| .skip hns

end Names

/-- A keyword is next. -/
def AtKeyword (c : Cursor) : Prop := ∃ word, c.current.kind = .keyword word

omit h in
/-- A statement that starts with a keyword. -/
lemma Safe.keyword {α : Type} {f : Place → Token → Parse α} {P : α → Prop}
    (hf : ∀ place t, Safe I k Anywhere (f place t) Never P) :
    Safe I (k + 1) AtKeyword (here >>= fun place => Syntax.advance >>= fun t => f place t)
      Always P := by
  refine .read here_run fun place => .after (.token ?_) fun t _ => hf place t
  rintro c ⟨⟨word, hkind⟩, -⟩
  simp [hkind]

omit h in
lemma importDeclaration_safe : SafeNode I (k + 1) AtKeyword importDeclaration .statement := by
  refine .keyword fun place _ => .symbol ?_
  refine (names_safe .skipNewlines).bind fun ns hns => .bind (.expectKind (by simp)) fun _ _ => ?_
  exact .bind (.expectKind (by simp)) fun _ _ => .bind .skipTerminator fun _ _ =>
    .skip fun g => .imports (hns g)

lemma exportDeclaration_safe : SafeNode I (k + 1) AtKeyword (exportDeclaration r) .statement := by
  refine .keyword fun place _ => .accept_ite (by simp) ?_ (h.statement.bind fun n hn => ?_)
  · exact (names_safe .skipNewlines).bind fun _ hns => .bind .skipTerminator fun _ _ =>
      .skip fun g => .exports (hns g) nofun
  · refine .skip fun g => .exports (word_of_exportedName (hn g)) ?_
    rintro _ ⟨⟩
    exact hn g

/-- A component without parentheses has no parameters. -/
lemma componentDeclaration_safe :
    SafeNode I (k + 1) AtKeyword (componentDeclaration r) .statement := by
  have hblock {place : Place} {name : String} (hname : I.genuine → Word I.Among name)
      {ps : List (Param Node)} (hps : I.genuine → ∀ p ∈ ps, ParamFits I.Among p) :
      Safe I k Anywhere (do return .component place name ps (← block r)) Never
        (Drawn I.Among .statement) :=
    (block_safe h).lower.bind fun _ hbody => .skip fun g =>
      .component (hname g) (fun p hp => (hps g p hp).1) (fun p hp => (hps g p hp).2) (hbody g)
  refine .keyword fun place _ => .bind .expectIdentifier fun name hname => ?_
  refine .accept_ite (by simp) ?_ ?_
  · refine (params_safe h).bind fun ps hps => .symbol ?_
    exact .bind (.skip hps) fun ps hps => hblock hname hps
  · exact .bind (.skip fun _ => nofun) fun ps hps => hblock hname hps

/-- The two marks of an arrow were seen before they are passed. -/
lemma resultType_safe : Safe I k pre (resultType r) Never Always := by
  refine .read (check_run _) fun _ => .read peekNext_run fun _ => .ite (fun _ => ?_) fun _ => .idle
  exact .bind .move fun _ _ => .bind .move fun _ _ => h.typeExpr.bind fun _ _ => .idle

lemma functionDeclaration_safe :
    SafeNode I (k + 1) AtKeyword (functionDeclaration r) .statement := by
  refine .keyword fun place _ => .bind .expectIdentifier fun name hname => ?_
  refine .symbol <| (params_safe h).bind fun ps hps => ?_
  refine .symbol <| (resultType_safe h).bind fun result _ => ?_
  exact (block_safe h).lower.bind fun _ hbody => .skip fun g =>
    .function (hname g) (fun p hp => (hps g p hp).1) (fun p hp => (hps g p hp).2) (hbody g)

/-- A name, perhaps with a type, and its value. -/
lemma nameAndValue_safe : Safe I k pre (nameAndValue r) Never fun x =>
    Word I.Among x.1 ∧ Drawn I.Among .expression x.2.2 := by
  refine .bind .expectIdentifier fun name hname => (optionalType_safe h).bind fun written _ => ?_
  refine .symbol <| h.expression.bind fun value hvalue => ?_
  exact .bind .skipTerminator fun _ _ => .skip fun g => ⟨hname g, hvalue g⟩

lemma bindingDeclaration_safe : SafeNode I (k + 1) AtKeyword (bindingDeclaration r) .statement :=
  .keyword fun _ _ => (nameAndValue_safe h).bind fun _ hx => .skip fun g =>
    .binding (hx g).1 (hx g).2

lemma stateDeclaration_safe : SafeNode I (k + 1) AtKeyword (stateDeclaration r) .statement :=
  .keyword fun _ _ => (nameAndValue_safe h).bind fun _ hx => .skip fun g => .state (hx g).1 (hx g).2

lemma effectDeclaration_safe : SafeNode I (k + 1) AtKeyword (effectDeclaration r) .statement := by
  have hblock {place : Place} (ns : List String) :
      Safe I k Anywhere (do return .effect place ns (← block r)) Never (Drawn I.Among .statement) :=
    (block_safe h).lower.bind fun _ hbody => .skip fun g => .effect (hbody g)
  refine .keyword fun place _ => .accept_ite (by simp) ?_ (.bind .idle fun ns _ => hblock ns)
  exact (names_safe .idle).bind fun ns _ => hblock ns

/-- A property of a style has a comma, a semicolon or nothing behind it. -/
lemma styleStep_round : Collects I k (styleStep r) (PropertyFits I.Among) := by
  refine untilStep_round (.test (check_run _)) ((property_safe h).lower.past fun p hp => ?_)
  have hrest : Safe I k Anywhere (do skipNewlines; return p) Never (PropertyFits I.Among) :=
    .newlines <| .skip hp
  exact .accept_ite (by simp) hrest (.bind (.accept (by simp)) fun _ _ => hrest)

/-- A style without a name has properties only. -/
lemma styleDeclaration_safe : SafeNode I (k + 1) AtKeyword (styleDeclaration r) .statement := by
  have hproperties {place : Place} {name : Option String}
      (hname : I.genuine → ∀ word ∈ name, Word I.Among word) :
      Safe I k Anywhere (styleTail r place name) Never (Drawn I.Among .statement) := by
    refine .symbol <| .newlines ?_
    refine .bind (.collect (styleStep_round h)) fun es hes => .symbol ?_
    exact .skip fun g =>
      .style (fun e he => (hes g e he).1.1) (fun e he => (hes g e he).1.2) (hname g)
  refine .keyword fun place _ => .read (check_run _) fun _ => .ite (fun hyes => ?_) fun _ => ?_
  · refine .bind (.map (Q := fun t => Word I.Among t.value) (.advance (fun c hc => ?_)
      fun c hc hpre => hc.word ?_) fun t ht => ?_) fun name hname => hproperties hname
    · simp [eq_of_beq (hc.2.trans hyes)]
    · simp [eq_of_beq (hpre.2.trans hyes), isName]
    · rintro _ ⟨⟩
      exact ht
  · exact .bind (.skip (by simp)) fun name hname => hproperties hname

lemma returnStatement_safe : SafeNode I (k + 1) AtKeyword (returnStatement r) .statement := by
  have hrest {place : Place} {value : Option Node}
      (hvalue : I.genuine → ∀ v ∈ value, Drawn I.Among .expression v) :
      Safe I k Anywhere (do skipTerminator; return .returning place value) Never
        (Drawn I.Among .statement) :=
    .bind .skipTerminator fun _ _ => .skip fun g => .returning (hvalue g)
  refine .keyword fun place _ => .read peek_run fun kind => .ite (fun _ => ?_) fun _ => ?_
  · exact .bind .missing fun _ hvalue => hrest hvalue
  · exact .bind (.given h.expression.anywhere) fun _ hvalue => hrest hvalue

lemma blockStatement_safe : SafeNode I (k + 1) pre (blockStatement r) .statement :=
  .read here_run fun _ => (block_safe h).past fun _ hbody => .skip fun g => .block (hbody g)

lemma expressionStatement_safe : SafeNode I (k + 1) pre (expressionStatement r) .statement :=
  .read here_run fun _ => (expression_safe h).past fun _ he => .bind .skipTerminator fun _ _ =>
    .skip fun g => .expression (he g)

/-- The first token tells what a statement is. -/
lemma statement_safe : SafeNode I (k + 1) pre (statement r) .statement := by
  refine .read peek_run fun kind => ?_
  have hkeyword {m : Parse Node} {word : Keyword} {P : Node → Prop}
      (hm : Safe I (k + 1) AtKeyword m Always P) :
      Safe I (k + 1) (fun c => pre c ∧ c.current.kind = .keyword word) m Always P :=
    hm.weaken fun c hc => ⟨word, hc.2⟩
  split
  · exact hkeyword importDeclaration_safe
  · exact hkeyword (exportDeclaration_safe h)
  · exact hkeyword (componentDeclaration_safe h)
  · exact hkeyword (functionDeclaration_safe h)
  · exact hkeyword (bindingDeclaration_safe h)
  · exact hkeyword (bindingDeclaration_safe h)
  · exact hkeyword (stateDeclaration_safe h)
  · exact hkeyword (effectDeclaration_safe h)
  · exact hkeyword (styleDeclaration_safe h)
  · exact hkeyword (returnStatement_safe h)
  · exact (ifElse_safe h).imp fun n hn => hn .statement nofun
  · exact (forEach_safe h).imp fun n hn => hn .statement nofun
  · exact .read atObject_run fun _ =>
      .ite (fun _ => expressionStatement_safe h) fun _ => blockStatement_safe h
  · exact .element_ite ((element_safe h).imp fun n hn => hn .statement) (expressionStatement_safe h)

lemma programStep_round : Collects I k (programStep r) (Drawn I.Among .statement) :=
  untilStep_round (.newlines <| .test (check_run _)) h.statement

omit h

/-! ### Programs -/

/-- The productions are safe among tokens that do not nest deeper. -/
lemma rules_safe (I : Input) (n : Nat) : (rules n).Safe I n := by
  induction n with
  | zero =>
    -- no tokens nest as little as that
    have hnone {α : Type} {pre : Cursor → Prop} {m : Parse α} {must P : α → Prop} :
        Safe I 0 pre m must P := by
      intro c hc _
      have := length_le_nestingBound c.tokens
      have := hc.bound
      omega
    constructor <;> exact hnone
  | succ n ih =>
    exact {
      expression := expression_safe ih
      assignment := assignment_safe ih
      unary := unary_safe ih
      statement := statement_safe ih
      element := element_safe ih
      ifElse := ifElse_safe ih
      typeExpr := typeExpr_safe ih }

/-- Nothing is passed where a program is empty. -/
lemma programBody_safe (I : Input) (n : Nat) :
    Safe I n Anywhere (programBody (rules n)) Never fun ns =>
      ∀ n ∈ ns, Drawn I.Among .statement n :=
  .collect (programStep_round (rules_safe I n))

/-- The statements of a parsed program are drawn from the tokens of its source. -/
lemma drawn_of_parse (hL : FragmentClosed L) {source file : String}
    (htokens : ∀ ts, Token.tokenize source file = .ok ts → ∀ t ∈ ts, L t) {p : Program}
    (h : Program.parse source file = .ok p) : ∀ n ∈ p.body, Drawn L .statement n := by
  unfold Program.parse at h
  cases hts : Token.tokenize source file with
  | error => rw [hts] at h; cases h
  | ok ts =>
    rw [hts] at h
    cases ts with
    | nil => cases h
    | cons t ts =>
      dsimp only at h
      let I : Input := ⟨file, t :: ts, True, L, fun _ => hL⟩
      let c : Cursor := { current := t, rest := ts, file }
      have hgenuine := Token.tokenize_genuine hts
      have hfits : c.Fits I (nestingBound (t :: ts)) :=
        Within.self.fits (tokenize_ended hts) (fun u hu => isNumeral_of_genuine (hgenuine u hu))
          (suffix_refl _) rfl (Nat.le_refl _) fun _ u hu => ⟨hgenuine u hu, htokens _ hts u hu⟩
      have hends := programBody_safe I _ c hfits trivial
      rw [ofTokens_cons] at h
      generalize programBody _ _ = run at h hends
      cases run with
      | error => cases h
      | ok =>
        cases h
        exact hends.2.2.2 trivial

/-- Only grammatical programs are parsed. -/
lemma grammatical_of_parse {source file : String} {p : Program}
    (h : Program.parse source file = .ok p) : ∀ n ∈ p.body, Grammatical .statement n :=
  drawn_of_parse (fun _ _ _ _ _ _ _ _ _ _ => trivial) (fun _ _ _ _ => trivial) h

end UiScript.Syntax
