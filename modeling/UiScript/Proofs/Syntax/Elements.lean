import UiScript.Proofs.Syntax.Joining
import UiScript.Proofs.Syntax.Rounds
import UiScript.Proofs.Token.Lines

/-!
# Elements as they are read

What the parts of markup are read as, token by token. Line ends between the parts are there or not:
some of them are dropped before reading starts. A part may also hold a closing tag that does not fit
its opening tag; then reading stops at the first such tag, and a sequence of readers fails as its
first reader that fails does.
-/

namespace UiScript.Syntax

open List

open Node (unplaced unplacedEntry)

open Token (Kind Row Thinned markRow wordRow stringRow wordKind)

/-! ### Stretches with line ends -/

/-- The tokens from the first cursor up to the second one have some rows, less some line ends. -/
def Stretch (rows : List Row) (c d : Cursor) : Prop := ∃ us, Thinned us rows ∧ Over us c d

/-- Nothing but line ends. -/
def IsGap (rows : List Row) : Prop := ∀ r ∈ rows, r.kind = .newline

section Stretch

variable {rows rows' : List Row} {r : Row} {c d e : Cursor}

lemma stretch_append (h : Stretch (rows ++ rows') c e) :
    ∃ d, Stretch rows c d ∧ Stretch rows' d e := by
  obtain ⟨us, hus, hover⟩ := h
  obtain ⟨vs, ws, rfl, hvs, hws⟩ := Token.thinned_append hus
  obtain ⟨d, hd, he⟩ := over_append hover
  exact ⟨d, ⟨vs, hvs, hd⟩, ws, hws, he⟩

lemma Stretch.over (h : Stretch rows c d) (hrows : ∀ r ∈ rows, r.kind ≠ .newline) :
    Over rows c d := by
  obtain ⟨us, hus, hover⟩ := h
  exact hus.eq_of_sameLine hrows ▸ hover

lemma Stretch.length_le (h : Stretch rows c d) : d.rest.length ≤ c.rest.length := by
  obtain ⟨us, -, hover⟩ := h
  have := over_length hover
  omega

lemma length_rest (h : c.rest = c.next.tokens) : c.rest.length = c.next.rest.length + 1 := by
  rw [h]
  rfl

/-- The first token of a stretch, if it is no line end. -/
lemma stretch_cons (h : Stretch (r :: rows) c d) (hr : r.kind ≠ .newline := by exact nofun) :
    c.current.row = r ∧ Stretch rows c.next d ∧ c.rest.length = c.next.rest.length + 1 ∧
      c.rest = c.next.tokens := by
  rw [← singleton_append] at h
  obtain ⟨e, hfirst, hrest⟩ := stretch_append h
  have hline : ∀ s ∈ [r], s.kind ≠ .newline := by
    intro s hs
    rwa [mem_singleton.mp hs]
  obtain ⟨hrow, rfl, htokens⟩ := over_single (hfirst.over hline)
  have htail := (List.cons.inj htokens).2
  exact ⟨hrow, hrest, length_rest htail, htail⟩

lemma stretch_nil (h : Stretch [] c d) : c = d :=
  over_nil (h.over fun _ hr => nomatch hr)

/-- Line ends are skipped. -/
lemma Stretch.skip (h : Stretch rows c d) (hgap : IsGap rows)
    (hd : isSeparator d.current.kind = false) : c.skip = d := by
  obtain ⟨us, hus, ts, rfl, htokens, hfile, hfragments⟩ := h
  have hts : ∀ t ∈ ts, isSeparator t.kind := by
    intro t ht
    have hkind : t.kind = .newline := hgap t.row (hus.1.subset (mem_map_of_mem ht))
    rw [hkind]
    rfl
  exact over_nil ⟨[], rfl, Cursor.skip_tokens ts htokens hts hd, hfile, hfragments⟩

lemma length_skip_le (c : Cursor) : c.skip.rest.length ≤ c.rest.length := by
  obtain ⟨us, htokens, -⟩ := c.skip_append
  have := congrArg List.length htokens
  simp only [Cursor.tokens, length_append, length_cons] at this
  omega

/-- What stands in front of a gap: a line end, or what stands behind it. -/
lemma Stretch.first (h : Stretch rows c d) (hgap : IsGap rows) :
    c = d ∨ c.current.kind = .newline := by
  obtain ⟨us, hus, hover⟩ := h
  cases us with
  | nil => exact .inl (over_nil hover)
  | cons r =>
    right
    rw [kind_of_row (over_cons hover).1]
    exact hgap r (hus.1.subset mem_cons_self)

end Stretch

/-! ### Readers that may meet a wrong closing tag -/

variable {α β : Type}

/-- Reading comes to a good result at a cursor, or stops at the first of some closing tags that do
not fit. -/
def Comes (m : Parse α) (c d : Cursor) (good : α → Prop) : List (String × String) → Prop
  | [] => ∃ a, m c = .ok a d ∧ good a
  | (tag, closing) :: _ => ∃ place e, m c = .error (.closingTag tag closing place) e

namespace Comes

variable {α β : Type} {m : Parse α} {f : α → Parse β} {c d e : Cursor} {a : α} {p : α → Prop}
  {q : β → Prop} {l more : List (String × String)}

lemma of_ok (h : m c = .ok a d) (ha : p a) : Comes m c d p [] := ⟨a, h, ha⟩

lemma read (h : m c = .ok a d) (hf : Comes (f a) d e q l) :
    Comes (m >>= f) c e q l := by
  cases l with
  | nil =>
    obtain ⟨b, hb, hp⟩ := hf
    exact ⟨b, (bind_ok h).trans hb, hp⟩
  | cons =>
    obtain ⟨place, e', hb⟩ := hf
    exact ⟨place, e', (bind_ok h).trans hb⟩

lemma bind (h : Comes m c d p l) (hf : ∀ a, p a → Comes (f a) d e q more) :
    Comes (m >>= f) c e q (l ++ more) := by
  cases l with
  | nil =>
    obtain ⟨a, ha, hp⟩ := h
    exact read ha (hf a hp)
  | cons =>
    obtain ⟨place, e', ha⟩ := h
    exact ⟨place, e', bind_error ha⟩

lemma congr {n : Parse α} {x : Cursor} (h : Comes n x d p l) (hm : m c = n x) :
    Comes m c d p l := by
  unfold Comes at h ⊢
  rwa [hm]

lemma imp {p' : α → Prop} (h : Comes m c d p l) (himp : ∀ a, p a → p' a) :
    Comes m c d p' l := by
  cases l with
  | nil =>
    obtain ⟨a, ha, h⟩ := h
    exact ⟨a, ha, himp a h⟩
  | cons => exact h

/-- One more round of a loop. -/
lemma round {step : α → Parse (α ⊕ β)} {n : Nat} (hn : 0 < n)
    (h : Comes (step a) c d (fun x => ∃ b, x = .inl b ∧ p b) l)
    (hloop : ∀ b, p b → Comes (loop step (n - 1) b) d e q more) :
    Comes (loop step n a) c e q (l ++ more) := by
  cases n with
  | zero => cases hn
  | succ n =>
    refine h.bind fun x hx => ?_
    obtain ⟨b, rfl, hb⟩ := hx
    exact hloop b hb

lemma last {step : α → Parse (α ⊕ β)} {b : β} {n : Nat} (hn : 0 < n)
    (h : step a c = .ok (.inr b) d) (hb : q b) : Comes (loop step n a) c d q [] :=
  ⟨b, loop_inr hn h, hb⟩

/-- What follows without a fault. -/
lemma andThen (h : Comes m c d p l) (hf : ∀ a, p a → ∃ b, f a d = .ok b e ∧ q b) :
    Comes (m >>= f) c e q l := by
  rw [← append_nil l]
  exact h.bind hf

end Comes

/-- Items are collected behind others. -/
def Collected (v : α → β) (acc : List α) (bs : List β) (as : List α) : Prop :=
  as.map v = acc.reverse.map v ++ bs

lemma Collected.cons {v : α → β} {a : α} {b : β} {acc as : List α} {bs : List β}
    (h : Collected v (a :: acc) bs as) (ha : v a = b) : Collected v acc (b :: bs) as := by
  rw [Collected, h, reverse_cons, map_append, append_assoc, map_singleton, ha]
  rfl

lemma collected_nil (v : α → β) (acc : List α) : Collected v acc [] acc.reverse :=
  (append_nil _).symm

/-! ### Attributes -/

def startsAttribute : Kind → Bool
  | .identifier | .keyword _ | .symbol .atSign => true
  | _ => false

/-- A token that no attribute goes on with. -/
def endsAttribute : Kind → Bool
  | .symbol .minus | .symbol .assign => false
  | _ => true

lemma startsAttribute_cases {kind : Kind} (h : startsAttribute kind) :
    endsAttribute kind ∧ isTagEnd kind = false ∧ isSeparator kind = false := by
  cases kind with
  | symbol mark => cases mark <;> first | exact ⟨rfl, rfl, rfl⟩ | cases h
  | identifier | keyword => exact ⟨rfl, rfl, rfl⟩
  | _ => cases h

lemma isTagEnd_cases {kind : Kind} (h : isTagEnd kind) :
    endsAttribute kind ∧ isSeparator kind = false := by
  cases kind with
  | symbol mark => cases mark <;> first | exact ⟨rfl, rfl⟩ | cases h
  | endOfFile => exact ⟨rfl, rfl⟩
  | _ => cases h

lemma startsAttribute_wordKind (word : String) : startsAttribute (wordKind word) := by
  unfold wordKind
  split <;> rfl

structure NameRows (rows : List Row) (name : String) : Prop where
  nonempty : rows ≠ []
  sameLine : ∀ r ∈ rows, r.kind ≠ .newline
  starts : ∀ ⦃c d⦄, Over rows c d → startsAttribute c.current.kind
  reads : ∀ ⦃c d⦄, Over rows c d → d.current.kind ≠ .symbol .minus → attributeName c = .ok name d

variable {c d : Cursor} {rows gap rows' : List Row} {r : Rules} {n : Node} {ns : List Node}
  {faults faults' : List (String × String)}

lemma expectName_word {word : String} (h : c.current.row = wordRow word) :
    expectName c = .ok word c.next := by
  have hname : isName c.current.kind := by
    rw [kind_of_row h]
    exact Phrase.isName_wordKind word
  rw [expectName_run, if_pos hname, value_of_row h]
  rfl

lemma nameRows_event (word : String) : NameRows [markRow .atSign, wordRow word] ("@" ++ word) where
  nonempty := cons_ne_nil _ _
  sameLine := by simp [markRow, wordRow, wordKind_ne_newline]
  starts c d hover := by
    rw [kind_of_mark (over_cons hover).1]
    rfl
  reads c d hover _ := by
    obtain ⟨hat, hover⟩ := over_cons hover
    obtain ⟨hword, rfl, -⟩ := over_single hover
    unfold attributeName
    rw [bind_ok (accept_row hat), if_pos rfl, bind_ok (expectName_word hword)]
    rfl

/-- The rows of the further words of a name. -/
def hyphenRows (words : List String) : List Row :=
  words.flatMap fun word => [markRow .minus, wordRow word]

/-- A name and further words behind it. -/
def hyphenated (name : String) (words : List String) : String :=
  words.foldl (fun s word => s ++ "-" ++ word) name

lemma loop_hyphen {words : List String} (hover : Over (hyphenRows words) c d)
    (hd : d.current.kind ≠ .symbol .minus) (name : String) {m : Nat} (hm : c.rest.length + 2 ≤ m) :
    loop hyphenStep m name c = .ok (hyphenated name words) d := by
  induction words generalizing c name m with
  | nil =>
    obtain rfl := over_nil hover
    refine loop_inr (by omega) ?_
    unfold hyphenStep
    rw [bind_run, accept_run, if_neg hd]
    rfl
  | cons word words ih =>
    have hlength := over_length hover
    simp only [hyphenRows, flatMap_cons, length_append, length_cons] at hlength
    obtain ⟨hminus, hover⟩ := over_cons hover
    obtain ⟨hword, hover⟩ := over_cons hover
    replace hover : Over (hyphenRows words) c.next.next d := hover
    have hrest := over_length hover
    unfold hyphenRows at hrest
    refine (loop_inl (by omega) ?_).trans (ih hover _ (by omega))
    unfold hyphenStep
    rw [bind_ok (accept_row hminus), if_pos rfl, bind_ok (expectName_word hword)]
    rfl

lemma nameRows_words (word : String) (words : List String) :
    NameRows ([wordRow word] ++ hyphenRows words) (hyphenated word words) where
  nonempty := cons_ne_nil _ _
  sameLine := by
    simp only [hyphenRows, singleton_append, mem_cons, mem_flatMap, not_mem_nil,
      or_false]
    rintro r (rfl | ⟨w, -, rfl | rfl⟩)
    · exact wordKind_ne_newline word
    · exact nofun
    · exact wordKind_ne_newline w
  starts c d hover := by
    rw [kind_of_row (over_cons hover).1]
    exact startsAttribute_wordKind word
  reads c d hover hd := by
    obtain ⟨hword, hover⟩ := over_cons hover
    have hat : c.current.kind ≠ .symbol .atSign := by
      rw [kind_of_row hword]
      unfold wordRow wordKind
      split <;> exact nofun
    unfold attributeName
    rw [bind_run, accept_run, if_neg hat]
    change (expectName >>= iterate hyphenStep) c = _
    rw [bind_ok (expectName_word hword)]
    exact loop_hyphen hover hd word (Nat.le_refl _)

/-- The rows are read as an attribute, in front of what does not go on with it. -/
structure AttributeRows (rows : List Row) (entry : Entry Node) : Prop where
  sameLine : ∀ r ∈ rows, r.kind ≠ .newline
  starts : ∀ ⦃c d⦄, Over rows c d → startsAttribute c.current.kind ∧ d.rest.length < c.rest.length
  reads : ∀ ⦃k c d⦄, c.rest.length ≤ k → Over rows c d → endsAttribute d.current.kind →
    ∃ a, tagAttribute (rules k) c = .ok a d ∧ unplacedEntry a = entry

lemma length_lt_of_ne (h : Over rows c d) (hne : rows ≠ []) : d.rest.length < c.rest.length := by
  have := over_length h
  have := length_pos_iff.mpr hne
  omega

namespace NameRows

variable {rows us : List Row} {name : String} {n : Node}

lemma bare (h : NameRows rows name) : AttributeRows rows ⟨name, none⟩ where
  sameLine := h.sameLine
  starts c d hover := ⟨h.starts hover, length_lt_of_ne hover h.nonempty⟩
  reads k c d _ hover hd := by
    have hne {mark : Symbol} (hmark : endsAttribute (.symbol mark) = false) :
        d.current.kind ≠ .symbol mark := by
      intro hk
      rw [hk, hmark] at hd
      cases hd
    refine ⟨⟨name, none⟩, ?_, rfl⟩
    unfold tagAttribute
    rw [bind_ok (h.reads hover (hne rfl)), bind_run, accept_run, if_neg (hne rfl)]
    rfl

/-- A name with a value behind an equals sign. -/
lemma assigned (h : NameRows rows name) (hline : ∀ r ∈ us, r.kind ≠ .newline)
    (hvalue : ∀ ⦃k c d⦄, c.rest.length < k → Over us c d →
      ∃ n', attributeValue (rules k) c = .ok n' d ∧ n'.unplaced = n) :
    AttributeRows (rows ++ [markRow .assign] ++ us) ⟨name, some n⟩ where
  sameLine := by
    simp only [mem_append, mem_singleton]
    rintro r ((hr | rfl) | hr)
    · exact h.sameLine r hr
    · exact nofun
    · exact hline r hr
  starts c d hover := by
    refine ⟨?_, length_lt_of_ne hover (by simp)⟩
    obtain ⟨e, he, -⟩ := over_split hover
    exact h.starts he
  reads k c e hk hover _ := by
    obtain ⟨d, hd, hassign, hover, htokens⟩ := over_split hover
    have hlength : d.next.rest.length < k := by
      have := over_length hd
      have := length_rest (List.cons.inj htokens).2
      omega
    obtain ⟨n', hread, hn⟩ := hvalue hlength hover
    refine ⟨⟨name, some n'⟩, ?_, by simp [unplacedEntry, hn]⟩
    unfold tagAttribute
    rw [bind_ok (h.reads hd (by simp [kind_of_mark hassign])), bind_ok (accept_row hassign),
      if_pos rfl, bind_run, map_eq_pure_bind, bind_ok hread]
    rfl

lemma text (h : NameRows rows name) (value : String) :
    AttributeRows (rows ++ [markRow .assign] ++ [stringRow value])
      ⟨name, some (.string none value)⟩ := by
  refine h.assigned (by simp [stringRow]) fun k c d _ hover => ?_
  obtain ⟨hrow, rfl, -⟩ := over_single hover
  refine ⟨.string c.current.place value, ?_, rfl⟩
  have hkind : c.current.kind = .string := kind_of_row hrow
  have hbrace : accept (.symbol .leftBrace) c = .ok false c := by
    rw [accept_run, if_neg (by simp [hkind])]
  have hstring : check .string c = .ok true c := by simp [hkind]
  unfold attributeValue
  rw [bind_ok hbrace, if_neg (by simp), bind_ok hstring, if_pos rfl, bind_ok (advance_run c),
    value_of_row hrow]
  rfl

lemma code (h : NameRows rows name) (hcode : Phrase .whole us n) :
    AttributeRows
      (rows ++ [markRow .assign] ++ ([markRow .leftBrace] ++ us ++ [markRow .rightBrace]))
      ⟨name, some n⟩ := by
  refine h.assigned ?_ fun k c d hk hover => ?_
  · simp only [mem_append, mem_singleton]
    rintro r ((rfl | hr) | rfl)
    · exact nofun
    · exact hcode.balanced.sameLine r hr
    · exact nofun
  · obtain ⟨e, he, hclose, rfl, -⟩ := over_snoc hover
    have hlength := over_length he
    simp only [length_append, length_singleton] at hlength
    obtain ⟨hopen, hrows⟩ := over_cons he
    obtain ⟨n', hread, hn⟩ := hcode.expression (k := k) (by omega) hrows
      (by rw [kind_of_mark hclose]; decide)
    refine ⟨n', ?_, hn⟩
    unfold attributeValue
    rw [bind_ok (accept_row hopen), if_pos rfl, bind_ok hread,
      bind_ok (expectSymbol_row hclose)]
    rfl

end NameRows

def AttributesRows (rows : List Row) (entries : List (Entry Node)) : Prop :=
  ∀ ⦃k c d⦄, c.rest.length ≤ k → Stretch rows c d → isTagEnd d.current.kind →
    endsAttribute c.current.kind ∧ ∀ (acc : List (Entry Node)) ⦃m⦄, c.skip.rest.length + 2 ≤ m →
      Comes (loop (attributeStep (rules k)) m acc) c.skip d
        (Collected unplacedEntry acc entries) []

lemma attributesRows_nil (hgap : IsGap gap) : AttributesRows gap [] := by
  intro k c d _ hstretch hd
  obtain ⟨hends, hline⟩ := isTagEnd_cases hd
  refine ⟨?_, fun acc m hm => ?_⟩
  · rcases hstretch.first hgap with rfl | hk
    · exact hends
    · rw [hk]
      rfl
  · rw [hstretch.skip hgap hline] at hm ⊢
    refine .last (by omega) ?_ (collected_nil _ acc)
    unfold attributeStep untilStep
    rw [bind_ok (a := true) (d := d)]
    · rfl
    · rw [bind_ok (peek_run d), hd]
      rfl

lemma AttributesRows.cons {entry : Entry Node} {entries : List (Entry Node)}
    (h' : AttributesRows rows' entries) (hgap : IsGap gap) (h : AttributeRows rows entry) :
    AttributesRows (gap ++ rows ++ rows') (entry :: entries) := by
  intro k c f hk hstretch hf
  obtain ⟨e, hstretch, hrest⟩ := stretch_append hstretch
  obtain ⟨d, hd, he⟩ := stretch_append hstretch
  have hover := he.over h.sameLine
  obtain ⟨hstart, hlt⟩ := h.starts hover
  obtain ⟨hends, hend, hline⟩ := startsAttribute_cases hstart
  have hskip := hd.skip hgap hline
  have hle := hd.length_le
  obtain ⟨hstop, hloop⟩ := h' (k := k) (by omega) hrest hf
  obtain ⟨a, ha, hentry⟩ := h.reads (k := k) (by omega) hover hstop
  refine ⟨?_, fun acc m hm => ?_⟩
  · rcases hd.first hgap with rfl | hk
    · exact hends
    · rw [hk]
      rfl
  · rw [hskip] at hm ⊢
    have hnext := length_skip_le e
    refine Comes.round (p := (· = a :: acc)) (d := e.skip) (l := []) (by omega)
      ⟨.inl (a :: acc), ?_, _, rfl, rfl⟩ ?_
    · unfold attributeStep untilStep
      rw [bind_ok (a := false) (d := d)]
      · rw [if_neg (by simp), bind_ok (a := a) (d := e.skip)]
        · rfl
        · rw [withNewlines, bind_ok ha, bind_ok (skipNewlines_run e)]
          rfl
      · rw [bind_ok (peek_run d), hend]
        rfl
    · rintro _ rfl
      exact (hloop (a :: acc) (by omega)).imp fun as has => has.cons hentry

/-! ### Elements -/

structure ElementRows (rows : List Row) (n : Node) (faults : List (String × String)) : Prop where
  starts : ∀ ⦃c d⦄, Stretch rows c d →
    c.current.kind = .symbol .lt ∧ atElement c = .ok true c ∧ d.rest.length < c.rest.length
  reads : ∀ ⦃k c d⦄, c.rest.length ≤ k → Stretch rows c d →
    Comes (element (rules k)) c d (·.unplaced = n) faults

/-- The rows are read as children, up to a closing tag. -/
def ChildrenRows (rows : List Row) (ns : List Node) (faults : List (String × String)) : Prop :=
  ∀ ⦃k c d⦄, c.rest.length < k → Stretch rows c d → d.current.kind = .symbol .lt →
    atClosingTag d = .ok true d → ∀ (acc : List Node) ⦃m⦄, c.rest.length + 2 ≤ m →
      Comes (loop (childStep (rules k)) m acc) c d (Collected unplaced acc ns) faults

section Element

variable {tag : String} {attrs rest : List Row} {entries : List (Entry Node)} {n : Node}
  {faults : List (String × String)}

lemma elementRows_of_tail (htag : isTagName (wordKind tag) tag)
    (hattrs : AttributesRows attrs entries)
    (hrest : ∀ ⦃c d⦄, Stretch rest c d → isTagEnd c.current.kind)
    (htail : ∀ ⦃k c d as⦄, c.rest.length < k → Stretch rest c d →
      as.map unplacedEntry = entries → ∀ place,
        Comes (elementTail (rules k) place tag as) c d (·.unplaced = n) faults) :
    ElementRows ([markRow .lt, wordRow tag] ++ attrs ++ rest) n faults := by
  have hkind : wordKind tag = .identifier := by
    unfold isTagName at htag
    simp_all
  refine ⟨fun c d hstretch => ?_, fun k c f hk hstretch => ?_⟩
  · obtain ⟨hlt, hstretch, hlength, htokens⟩ := stretch_cons hstretch
    have hle := hstretch.length_le
    obtain ⟨hword, -⟩ := stretch_cons hstretch (wordKind_ne_newline tag)
    refine ⟨kind_of_mark hlt, ?_, by omega⟩
    rw [atElement_run, kind_of_mark hlt, htokens]
    change EStateM.Result.ok (true && isTagName c.next.current.kind c.next.current.value) c = _
    rw [kind_of_row hword, value_of_row hword]
    exact congrArg (EStateM.Result.ok · c) htag
  · obtain ⟨hlt, hstretch, hlength, -⟩ := stretch_cons hstretch
    obtain ⟨hword, hstretch, hlength', -⟩ := stretch_cons hstretch (wordKind_ne_newline tag)
    obtain ⟨d, hd, hf⟩ := stretch_append hstretch
    have hle := hd.length_le
    obtain ⟨-, hloop⟩ := hattrs (k := k) (by omega) hd (hrest hf)
    rw [element]
    refine .read (here_run c) (.read (expectSymbol_row hlt)
      (.read (expectIdentifier_run hword hkind) (.read (skipNewlines_run _) ?_)))
    refine Comes.bind (l := []) (hloop [] (Nat.le_refl _)) fun as has => ?_
    exact htail (by omega) hf has _

lemma elementRows_closed (htag : isTagName (wordKind tag) tag)
    (hattrs : AttributesRows attrs entries) :
    ElementRows ([markRow .lt, wordRow tag] ++ attrs ++ [markRow .slash, markRow .gt])
      (tagged tag entries [] true) [] := by
  refine elementRows_of_tail htag hattrs (fun c d hstretch => ?_)
    fun k c d as _ hstretch has place => ?_
  · rw [kind_of_mark (stretch_cons hstretch).1]
    rfl
  · obtain ⟨hslash, hstretch, -⟩ := stretch_cons hstretch
    obtain ⟨hgt, hstretch, -⟩ := stretch_cons hstretch
    obtain rfl := stretch_nil hstretch
    refine .of_ok (a := tagNode place tag as [] true) ?_ (by rw [unplaced_tagNode, has]; rfl)
    unfold elementTail
    rw [bind_ok (accept_row hslash), if_pos rfl, bind_ok (expectSymbol_row hgt)]
    rfl

def closingFaults (tag closing : String) : List (String × String) :=
  if closing = tag then [] else [(tag, closing)]

lemma elementRows_paired {inner : List Row} {closing : String}
    (htag : isTagName (wordKind tag) tag) (hattrs : AttributesRows attrs entries)
    (hinner : ChildrenRows inner ns faults) (hclosing : wordKind closing = .identifier) :
    ElementRows ([markRow .lt, wordRow tag] ++ attrs ++ ([markRow .gt] ++ inner ++
        [markRow .lt, markRow .slash, wordRow closing, markRow .gt]))
      (tagged tag entries ns false) (faults ++ closingFaults tag closing) := by
  refine elementRows_of_tail htag hattrs (fun c d hstretch => ?_)
    fun k c f as hk hstretch has place => ?_
  · rw [kind_of_mark (stretch_cons hstretch).1]
    rfl
  · obtain ⟨hgt, hstretch, hlength, -⟩ := stretch_cons hstretch
    obtain ⟨d, hd, hstretch⟩ := stretch_append hstretch
    obtain ⟨hlt, hstretch, -, htokens⟩ := stretch_cons hstretch
    obtain ⟨hslash, hstretch, -⟩ := stretch_cons hstretch
    obtain ⟨hword, hstretch, -⟩ := stretch_cons hstretch (wordKind_ne_newline closing)
    obtain ⟨hgt', hstretch, -⟩ := stretch_cons hstretch
    obtain rfl := stretch_nil hstretch
    have hat : atClosingTag d = .ok true d := by
      rw [atClosingTag_run, kind_of_mark hlt, htokens]
      simp [Cursor.tokens, kind_of_mark hslash]
    have hchildren := hinner (k := k) (by omega) hd (kind_of_mark hlt) hat [] (Nat.le_refl _)
    have hnoslash : accept (.symbol .slash) c = .ok false c := by
      rw [accept_run, if_neg (by simp [kind_of_mark hgt])]
    have hidentifier :
        expect .identifier d.next.next = .ok d.next.next.current d.next.next.next := by
      rw [expect_run, if_pos ((kind_of_row hword).trans hclosing)]
    have hvalue : d.next.next.current.value = closing := value_of_row hword
    unfold elementTail
    refine .read hnoslash ?_
    rw [if_neg (by simp)]
    refine .read (expectSymbol_row hgt) (Comes.bind hchildren fun ns' hns => ?_)
    refine .read (expectSymbol_row hlt) (.read (expectSymbol_row hslash)
      (.read hidentifier ?_))
    rw [hvalue]
    by_cases hsame : closing = tag
    · rw [closingFaults, if_pos hsame, if_neg (by simpa using hsame)]
      refine .of_ok (a := tagNode place tag as ns' false) ?_ ?_
      · exact bind_ok (expectSymbol_row hgt')
      · rw [unplaced_tagNode, has, hns]
        rfl
    · rw [closingFaults, if_neg hsame, if_pos (by simpa using hsame)]
      exact ⟨d.next.next.current.place, d.next.next.next, rfl⟩

end Element

/-! ### Children -/

structure ChildRows (rows : List Row) (n : Node) (faults : List (String × String)) : Prop where
  starts : ∀ ⦃c d⦄, Stretch rows c d →
    isSeparator c.current.kind = false ∧ d.rest.length < c.rest.length
  reads : ∀ ⦃k c d⦄, c.rest.length < k → Stretch rows c d → ∀ acc,
    Comes (childStep (rules k) acc) c d (fun x => ∃ ns, x = .inl ns ∧ ∃ n', ns = n' :: acc ∧
      n'.unplaced = n) faults

lemma Stretch.starts {r : Row} (h : Stretch (r :: rows) c d) (hr : r.kind ≠ .newline)
    (hline : isSeparator r.kind = false) :
    isSeparator c.current.kind = false ∧ d.rest.length < c.rest.length := by
  obtain ⟨hrow, hstretch, hlength, -⟩ := stretch_cons h hr
  have := hstretch.length_le
  exact ⟨by rwa [kind_of_row hrow], by omega⟩

lemma childrenRows_nil (hgap : IsGap gap) : ChildrenRows gap [] [] := by
  intro k c d _ hstretch hlt hat acc m hm
  have hskip : c.skip = d := hstretch.skip hgap (by rw [hlt]; rfl)
  refine .last (by omega) ?_ (collected_nil _ acc)
  unfold childStep
  rw [bind_ok (skipNewlines_run c), hskip, bind_ok hat]
  rfl

/-- Line ends in front of a child do not matter. -/
lemma childStep_skip {acc : List Node} (hskip : c.skip = d)
    (hd : isSeparator d.current.kind = false) : childStep r acc c = childStep r acc d := by
  unfold childStep
  rw [bind_ok (skipNewlines_run c), bind_ok (skipNewlines_run d), hskip, skip_eq_self hd]

lemma ChildrenRows.cons (h' : ChildrenRows rows' ns faults') (hgap : IsGap gap)
    (h : ChildRows rows n faults) :
    ChildrenRows (gap ++ rows ++ rows') (n :: ns) (faults ++ faults') := by
  intro k c f hk hstretch hlt hat acc m hm
  obtain ⟨e, hstretch, hrest⟩ := stretch_append hstretch
  obtain ⟨d, hd, he⟩ := stretch_append hstretch
  obtain ⟨hline, hlength⟩ := h.starts he
  have hle := hd.length_le
  have hstep := (h.reads (k := k) (by omega) he acc).congr
    (childStep_skip (hd.skip hgap hline) hline)
  refine hstep.round (by omega) fun out hout => ?_
  obtain ⟨n', rfl, hn⟩ := hout
  refine (h' (k := k) (by omega) hrest hlt hat (n' :: acc) (by omega)).imp fun as has => ?_
  exact has.cons hn

lemma childStep_string (h : c.current.kind = .string) (acc : List Node) :
    childStep r acc c = .ok (.inl (.text c.current.place c.current.value :: acc)) c.next := by
  have hskip : c.skip = c := skip_eq_self (by rw [h]; rfl)
  have hclosing : atClosingTag c = .ok false c := by simp [h]
  have hbrace : check (.symbol .leftBrace) c = .ok false c := by simp [h]
  have helement : atElement c = .ok false c := by simp [h]
  unfold childStep
  rw [bind_ok (skipNewlines_run c), hskip, bind_ok hclosing, if_neg (by simp), bind_ok hbrace,
    if_neg (by simp), bind_ok helement, if_neg (by simp), bind_ok (peek_run c), h]
  exact bind_ok (advance_run c)

lemma childRows_text (value : String) : ChildRows [stringRow value] (.text none value) [] := by
  refine ⟨fun c d hstretch => ?_, fun k c d _ hstretch acc => ?_⟩
  · exact hstretch.starts nofun rfl
  · obtain ⟨hrow, hstretch, -⟩ := stretch_cons hstretch
    obtain rfl := stretch_nil hstretch
    refine .of_ok (childStep_string (kind_of_row hrow) acc) ⟨_, rfl, _, rfl, ?_⟩
    rw [value_of_row hrow]
    rfl

/-- A bracket that opens an element opens no closing tag. -/
lemma atClosingTag_of_element (h : atElement c = .ok true c) : atClosingTag c = .ok false c := by
  rw [atElement_run] at h
  rw [atClosingTag_run]
  have htag := (EStateM.Result.ok.inj h).1
  cases hrest : c.rest with
  | nil => simp
  | cons t =>
    have hkind : t.kind = .identifier := by
      rw [hrest] at htag
      simp only [head?_cons, Option.any_some, isTagName, Bool.and_eq_true, beq_iff_eq] at htag
      exact htag.2.1
    simp [hkind]

lemma childStep_element (hlt : c.current.kind = .symbol .lt) (h : atElement c = .ok true c)
    (acc : List Node) : childStep r acc c = (do return Sum.inl ((← r.element) :: acc)) c := by
  have hskip : c.skip = c := skip_eq_self (by rw [hlt]; rfl)
  have hbrace : check (.symbol .leftBrace) c = .ok false c := by simp [hlt]
  unfold childStep
  rw [bind_ok (skipNewlines_run c), hskip, bind_ok (atClosingTag_of_element h), if_neg (by simp),
    bind_ok hbrace, if_neg (by simp), bind_ok h, if_pos rfl]

lemma ElementRows.child (h : ElementRows rows n faults) : ChildRows rows n faults := by
  refine ⟨fun c d hstretch => ?_, fun k c d hk hstretch acc => ?_⟩
  · obtain ⟨hlt, -, hlength⟩ := h.starts hstretch
    rw [hlt]
    exact ⟨rfl, hlength⟩
  · obtain ⟨hlt, helement, hlength⟩ := h.starts hstretch
    obtain ⟨k, rfl⟩ : ∃ l, k = l + 1 := ⟨k - 1, by omega⟩
    have hread : Comes (rules (k + 1)).element c d (·.unplaced = n) faults :=
      h.reads (Nat.le_of_lt_succ hk) hstretch
    refine Comes.congr ?_ (childStep_element hlt helement acc)
    exact hread.andThen fun n' hn => ⟨_, rfl, _, rfl, n', rfl, hn⟩

/-! ### Blocks of tags -/

/-- The rows are read as the statements of a block, up to its closing brace. -/
def BodyRows (rows : List Row) (ns : List Node) (faults : List (String × String)) : Prop :=
  ∀ ⦃k c d⦄, c.rest.length < k → Stretch rows c d → d.current.kind = .symbol .rightBrace →
    ∀ (acc : List Node) ⦃m⦄, c.skip.rest.length + 2 ≤ m →
      Comes (loop (blockStep (rules k)) m acc) c.skip d (Collected unplaced acc ns) faults

lemma bodyRows_nil (hgap : IsGap gap) : BodyRows gap [] [] := by
  intro k c d _ hstretch hd acc m hm
  rw [hstretch.skip hgap (by rw [hd]; rfl)] at hm ⊢
  refine .last (by omega) ?_ (collected_nil _ acc)
  unfold blockStep untilStep
  rw [bind_ok (a := true) (d := d)]
  · rfl
  · rw [bind_ok (check_run _ d), hd]
    rfl

lemma statement_element (hlt : c.current.kind = .symbol .lt) (h : atElement c = .ok true c) :
    statement r c = element r c := by
  unfold statement
  rw [bind_ok (peek_run c), hlt]
  change (atElement >>= _) c = _
  rw [bind_ok h, if_pos rfl]

lemma BodyRows.cons (h' : BodyRows rows' ns faults') (hgap : IsGap gap)
    (h : ElementRows rows n faults) :
    BodyRows (gap ++ rows ++ rows') (n :: ns) (faults ++ faults') := by
  intro k c f hk hstretch hf acc m hm
  obtain ⟨e, hstretch, hrest⟩ := stretch_append hstretch
  obtain ⟨d, hd, he⟩ := stretch_append hstretch
  obtain ⟨hlt, helement, hlength⟩ := h.starts he
  have hle := hd.length_le
  have hnext := length_skip_le e
  rw [hd.skip hgap (by rw [hlt]; rfl)] at hm ⊢
  obtain ⟨k, rfl⟩ : ∃ l, k = l + 1 := ⟨k - 1, by omega⟩
  have hread : Comes (rules (k + 1)).statement d e (·.unplaced = n) faults :=
    (h.reads (k := k) (by omega) he).congr (statement_element hlt helement)
  have hdone : (do return (← check (.symbol .rightBrace)) || (← atEnd) : Parse Bool) d =
      .ok false d := by
    rw [bind_ok (check_run _ d), hlt, bind_ok (atEnd_run d), hlt]
    rfl
  refine Comes.round (d := e.skip) (p := fun ns => ∃ n', ns = n' :: acc ∧ n'.unplaced = n)
    (by omega) ?_ ?_
  · unfold blockStep untilStep
    refine .read hdone ?_
    rw [if_neg (by simp)]
    refine Comes.andThen (p := (·.unplaced = n)) (d := e.skip) ?_ fun n' hn =>
      ⟨_, rfl, _, rfl, n', rfl, hn⟩
    exact hread.andThen fun n' hn => ⟨n', rfl, hn⟩
  · rintro _ ⟨n', rfl, hn⟩
    exact (h' (k := k + 1) (by omega) hrest hf (n' :: acc) (by omega)).imp fun as has => has.cons hn

structure BlockRows (rows : List Row) (ns : List Node) (faults : List (String × String)) :
    Prop where
  starts : ∀ ⦃c d⦄, Stretch rows c d → c.current.kind = .symbol .leftBrace
  reads : ∀ ⦃k c d⦄, c.rest.length ≤ k → Stretch rows c d →
    Comes (block (rules k)) c d (·.map unplaced = ns) faults

lemma BodyRows.block (h : BodyRows rows ns faults) :
    BlockRows ([markRow .leftBrace] ++ rows ++ [markRow .rightBrace]) ns faults := by
  refine ⟨fun c d hstretch => kind_of_mark (stretch_cons hstretch).1,
    fun k c e hk hstretch => ?_⟩
  obtain ⟨hopen, hstretch, hlength, -⟩ := stretch_cons hstretch
  obtain ⟨d, hd, hstretch⟩ := stretch_append hstretch
  obtain ⟨hclose, hstretch, -⟩ := stretch_cons hstretch
  obtain rfl := stretch_nil hstretch
  have hbody := h (k := k) (by omega) hd (kind_of_mark hclose) [] (Nat.le_refl _)
  unfold Syntax.block blockBody
  refine .read (expectSymbol_row hopen) (Comes.andThen (d := d) (p := (·.map unplaced = ns))
    ?_ fun as has => ⟨as, ?_, has⟩)
  · exact .read (skipNewlines_run c.next) hbody
  · rw [bind_ok (expectSymbol_row hclose)]
    rfl

/-! ### Children in braces -/

lemma bracedChild_run (r : Rules) (c : Cursor) : bracedChild r c = (do
    let child ← bracedItem r c.current.place
    skipNewlines
    expectSymbol .rightBrace
    return child) c.next.skip := by
  unfold bracedChild
  rw [bind_ok (here_run c), bind_ok (advance_run c), bind_ok (skipNewlines_run c.next)]

lemma childStep_braced (h : c.current.kind = .symbol .leftBrace) (acc : List Node) :
    childStep r acc c = (do return Sum.inl ((← bracedChild r) :: acc)) c := by
  have hskip : c.skip = c := skip_eq_self (by rw [h]; rfl)
  have hclosing : atClosingTag c = .ok false c := by simp [h]
  have hbrace : check (.symbol .leftBrace) c = .ok true c := by simp [h]
  unfold childStep
  rw [bind_ok (skipNewlines_run c), hskip, bind_ok hclosing, if_neg (by simp), bind_ok hbrace,
    if_pos rfl]

lemma childRows_braced
    (h : ∀ ⦃k c d⦄, c.rest.length < k → Stretch rows c d → d.current.kind = .symbol .rightBrace →
      isSeparator c.current.kind = false ∧
        ∀ place, Comes (bracedItem (rules k) place) c d (·.unplaced = n) faults) :
    ChildRows ([markRow .leftBrace] ++ rows ++ [markRow .rightBrace]) n faults := by
  refine ⟨fun c d hstretch => ?_, fun k c e hk hstretch acc => ?_⟩
  · exact hstretch.starts nofun rfl
  · obtain ⟨hopen, hstretch, hlength, -⟩ := stretch_cons hstretch
    obtain ⟨d, hd, hstretch⟩ := stretch_append hstretch
    obtain ⟨hclose, hstretch, -⟩ := stretch_cons hstretch
    obtain rfl := stretch_nil hstretch
    obtain ⟨hline, hread⟩ := h (k := k) (by omega) hd (kind_of_mark hclose)
    have hskip : d.skip = d := skip_eq_self (by rw [kind_of_mark hclose]; rfl)
    have hchild : Comes (bracedChild (rules k)) c d.next (·.unplaced = n) faults := by
      refine Comes.congr (x := c.next) ?_ ((bracedChild_run (rules k) c).trans (by
        rw [skip_eq_self hline]))
      refine (hread c.current.place).andThen fun n' hn => ⟨n', ?_, hn⟩
      rw [bind_ok (skipNewlines_run d), hskip, bind_ok (expectSymbol_row hclose)]
      rfl
    refine Comes.congr ?_ (childStep_braced (kind_of_mark hopen) acc)
    exact hchild.andThen fun n' hn => ⟨_, rfl, _, rfl, n', rfl, hn⟩

lemma childRows_code (h : Phrase .whole rows n) :
    ChildRows ([markRow .leftBrace] ++ rows ++ [markRow .rightBrace])
      (.interpolation none n) [] := by
  refine childRows_braced fun k c d hk hstretch hd => ?_
  have hover := hstretch.over h.balanced.sameLine
  have hstart := h.starts.isStart hover
  have hlength := over_length hover
  obtain ⟨n', hread, hn⟩ := h.expression (k := k) (by omega) hover (by rw [hd]; decide)
  refine ⟨not_isSeparator_of_start hstart, fun place => .of_ok (a := .interpolation place n') ?_ (by
    simp [unplaced, hn])⟩
  unfold bracedItem
  rw [bind_ok (peek_run c)]
  have hitem : (Node.interpolation place <$> (rules k).expression) c =
      .ok (.interpolation place n') d := by
    rw [map_eq_pure_bind, bind_ok hread]
    rfl
  cases hkind : c.current.kind with
  | keyword word =>
    rw [hkind] at hstart
    cases word <;> first | exact hitem | cases hstart
  | _ => exact hitem

lemma ifElseTail_else (h : c.current.kind = .keyword .elseWord) (place : Place) (condition : Node)
    (consequent : List Node) :
    ifElseTail r place condition consequent c =
      if c.next.current.kind = .keyword .ifWord then
        (do return Node.ifElse place condition consequent (some [← r.ifElse])) c.next
      else (do return Node.ifElse place condition consequent (some (← block r))) c.next := by
  have haccept : accept (.keyword .elseWord) c = .ok true c.next := by rw [accept_run, if_pos h]
  unfold ifElseTail
  rw [bind_ok (skipNewlines_run c), skip_eq_self (by rw [h]; rfl), bind_ok haccept, if_pos rfl,
    bind_ok (check_run _ c.next)]
  by_cases hif : c.next.current.kind = .keyword .ifWord
  · rw [if_pos hif, if_pos (by simpa using hif)]
  · rw [if_neg hif, if_neg (by simpa using hif)]

/-- The rows are read as a conditional, up to a closing brace. -/
structure BranchRows (rows : List Row) (n : Node) (faults : List (String × String)) : Prop where
  starts : ∀ ⦃c d⦄, Stretch rows c d → c.current.kind = .keyword .ifWord
  reads : ∀ ⦃k c d⦄, c.rest.length ≤ k → Stretch rows c d → d.current.kind = .symbol .rightBrace →
    Comes (ifElse (rules k)) c d (·.unplaced = n) faults

lemma expect_keyword {word : Keyword} (h : c.current.kind = .keyword word) :
    expect (.keyword word) c = .ok c.current c.next := by
  rw [expect_run, if_pos h]

section Branch

variable {rows us vs : List Row} {e n : Node} {ns ms : List Node}
  {faults faults' : List (String × String)} (hcode : Phrase .whole rows e)
  (hblock : BlockRows us ns faults)
include hcode hblock

/-- The condition of a conditional and what follows if it holds. -/
lemma branchRows_of_tail {rest : List Row}
    (htail : ∀ ⦃k c d⦄, c.rest.length < k → Stretch rest c d →
      d.current.kind = .symbol .rightBrace →
      ∀ place ⦃e' : Node⦄ ⦃ns' : List Node⦄, e'.unplaced = e → ns'.map unplaced = ns →
        Comes (ifElseTail (rules k) place e' ns') c d (·.unplaced = n) faults') :
    BranchRows ([wordRow "if"] ++ rows ++ us ++ rest) n (faults ++ faults') := by
  refine ⟨fun c d hstretch => kind_of_row (stretch_cons hstretch).1,
    fun k c g hk hstretch hg => ?_⟩
  obtain ⟨hif, hstretch, hlength, -⟩ := stretch_cons hstretch
  obtain ⟨f, hstretch, hrest⟩ := stretch_append hstretch
  obtain ⟨d, hd, hf⟩ := stretch_append hstretch
  have hover : Over rows _ d := hd.over hcode.balanced.sameLine
  have hspan := over_length hover
  have hle := hf.length_le
  have hopen := hblock.starts hf
  obtain ⟨e', hread, he⟩ := hcode.expression (k := k) (by omega) hover (by rw [hopen]; decide)
  rw [ifElse]
  refine .read (here_run c) (.read (expect_keyword (kind_of_row hif)) (.read hread ?_))
  exact (hblock.reads (by omega) hf).bind fun ns' hns => htail (by omega) hrest hg _ he hns

lemma branchRows_only :
    BranchRows ([wordRow "if"] ++ rows ++ us) (.ifElse none e ns none) faults := by
  rw [← append_nil (_ ++ us), ← append_nil faults]
  refine branchRows_of_tail hcode hblock fun k c d _ hstretch hd place e' ns' he hns => ?_
  obtain rfl := stretch_nil hstretch
  refine .of_ok (a := .ifElse place e' ns' none) ?_
    (by simp [unplaced, Node.unplacedOptionList, he, hns])
  have helse : accept (.keyword .elseWord) c = .ok false c := by
    rw [accept_run, if_neg (by simp [hd])]
  unfold ifElseTail
  rw [bind_ok (skipNewlines_run c), skip_eq_self (by rw [hd]; rfl), bind_ok helse]
  rfl

lemma branchRows_orElse (hother : BlockRows vs ms faults') :
    BranchRows ([wordRow "if"] ++ rows ++ us ++ ([wordRow "else"] ++ vs))
      (.ifElse none e ns (some ms)) (faults ++ faults') := by
  refine branchRows_of_tail hcode hblock fun k c d hk hstretch hd place e' ns' he hns => ?_
  obtain ⟨helse, hstretch, hlength, -⟩ := stretch_cons hstretch
  have hopen := hother.starts hstretch
  refine Comes.congr ?_ ((ifElseTail_else (kind_of_row helse) place e' ns').trans (if_neg (by
    simp [hopen])))
  refine (hother.reads (by omega) hstretch).andThen fun ms' hms => ⟨_, rfl, ?_⟩
  simp [unplaced, Node.unplacedOptionList, he, hns, hms]

lemma branchRows_orBranch (hother : BranchRows vs n faults') :
    BranchRows ([wordRow "if"] ++ rows ++ us ++ ([wordRow "else"] ++ vs))
      (.ifElse none e ns (some [n])) (faults ++ faults') := by
  refine branchRows_of_tail hcode hblock fun k c d hk hstretch hd place e' ns' he hns => ?_
  obtain ⟨helse, hstretch, hlength, -⟩ := stretch_cons hstretch
  obtain ⟨k, rfl⟩ : ∃ l, k = l + 1 := ⟨k - 1, by omega⟩
  have hread : Comes (rules (k + 1)).ifElse c.next d (·.unplaced = n) faults' :=
    hother.reads (by omega) hstretch hd
  refine Comes.congr ?_ ((ifElseTail_else (kind_of_row helse) place e' ns').trans (if_pos
    (hother.starts hstretch)))
  refine hread.andThen fun m hm => ⟨_, rfl, ?_⟩
  simp [unplaced, Node.unplacedOptionList, he, hns, hm]

end Branch

lemma BranchRows.child (h : BranchRows rows n faults) :
    ChildRows ([markRow .leftBrace] ++ rows ++ [markRow .rightBrace]) n faults := by
  refine childRows_braced fun k c d hk hstretch hd => ?_
  have hif := h.starts hstretch
  refine ⟨by rw [hif]; rfl, fun place => (h.reads (Nat.le_of_lt hk) hstretch hd).congr ?_⟩
  unfold bracedItem
  rw [bind_ok (peek_run c), hif]

lemma childRows_each {us : List Row} {name : String} {e : Node}
    (hname : wordKind name = .identifier) (hcode : Phrase .whole rows e)
    (hblock : BlockRows us ns faults) :
    ChildRows ([markRow .leftBrace] ++
        ([wordRow "for", wordRow name, wordRow "in"] ++ rows ++ us) ++ [markRow .rightBrace])
      (.forEach none name e ns) faults := by
  refine childRows_braced fun k c g hk hstretch hg => ?_
  obtain ⟨hfor, hstretch, hlength, -⟩ := stretch_cons hstretch
  obtain ⟨hword, hstretch, hlength', -⟩ := stretch_cons hstretch (wordKind_ne_newline name)
  obtain ⟨hin, hstretch, hlength'', -⟩ := stretch_cons hstretch
  obtain ⟨d, hd, hf⟩ := stretch_append hstretch
  have hover : Over rows _ d := hd.over hcode.balanced.sameLine
  have hspan := over_length hover
  have hopen := hblock.starts hf
  have hkind : c.current.kind = .keyword .forWord := kind_of_row hfor
  obtain ⟨e', hread, he⟩ := hcode.expression (k := k) (by omega) hover (by rw [hopen]; decide)
  refine ⟨by rw [hkind]; rfl, fun place => Comes.congr (n := forEach (rules k)) (x := c) ?_ ?_⟩
  · unfold forEach
    refine .read (here_run c) (.read (expect_keyword hkind) (.read
      (expectIdentifier_run hword hname) (.read (expect_keyword (kind_of_row hin))
        (.read hread ?_))))
    refine (hblock.reads (by omega) hf).andThen fun ns' hns => ⟨_, rfl, ?_⟩
    simp [unplaced, he, hns]
  · unfold bracedItem
    rw [bind_ok (peek_run c), hkind]

end UiScript.Syntax
