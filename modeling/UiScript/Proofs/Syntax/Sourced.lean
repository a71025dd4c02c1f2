import UiScript.Proofs.Syntax.Reading

/-!
# Where the tokens of a tree come from

The tokens that a tree is drawn from stand in the source, or in a fragment of a template there. A
fragment has no back quotes, so every back-quoted token stands in the source itself, with its place
and with each character between its quotes.
-/

namespace UiScript.Token

/-! ### Tokens in the text -/

def Stands (source file : String) (t : Token) : Prop :=
  ∃ before text after, source.toList = before ++ text ++ after ∧ TextOf text t.row ∧
    t.place = placeAfter file before

variable {ts : List Token}

lemma Tiles.stands {file : String} {rest before cs : List Char} (h : Tiles file rest before cs ts) :
    ∀ t ∈ ts, ∃ ahead text after, before ++ cs ++ rest = ahead ++ text ++ after ∧
      TextOf text t.row ∧ t.place = placeAfter file ahead := by
  induction h with
  | gap => exact nofun
  | @token before gap text cs t ts _ htext _ hplace _ ih =>
    refine List.forall_mem_cons.mpr ⟨⟨before ++ gap, text, cs ++ rest, ?_, htext, hplace⟩, ?_⟩
    · simp only [List.append_assoc]
    · intro t ht
      obtain ⟨ahead, text', after, heq, htext', hplace'⟩ := ih t ht
      refine ⟨ahead, text', after, ?_, htext', hplace'⟩
      rw [← heq]
      simp only [List.append_assoc]

lemma mem_of_mem_keep {kept : List Token} {t u : Token} (h : u ∈ keep kept t) :
    u ∈ kept ∨ u = t := by
  cases kept <;> simp only [keep] at h <;> split_ifs at h <;> simp_all <;> tauto

/-- Leaving line ends out adds no token. -/
lemma mem_of_mem_pruneNewlines {t : Token} (h : t ∈ pruneNewlines ts) : t ∈ ts := by
  have hfold (kept : List Token) (ht : t ∈ ts.foldl keep kept) : t ∈ kept ∨ t ∈ ts := by
    clear h
    induction ts generalizing kept with
    | nil => exact .inl ht
    | cons u ts ih =>
      rcases ih _ ht with ht | ht
      · exact (mem_of_mem_keep ht).imp_right fun (hu : t = u) => hu ▸ List.mem_cons_self
      · exact .inr (List.mem_cons_of_mem u ht)
  exact (hfold [] (List.mem_reverse.mp h)).resolve_left nofun

lemma stands_of_tokenize {source file : String}
    (h : tokenize source file = .ok ts) : ∀ t ∈ ts, Stands source file t ∨ t.row = endRow := by
  intro t ht
  unfold tokenize rawTokens at h
  rcases Scans.of_scan_all source.toList with ⟨hfault, hcut⟩ | ⟨c, rest, fault, hfault, -, -⟩
  · simp only [hfault] at h
    obtain rfl := Except.ok.inj h
    rcases List.mem_append.mp (mem_of_mem_pruneNewlines ht) with ht | ht
    · obtain ⟨before, text, after, heq, hstands⟩ := (hcut.tiles file []).1.stands t ht
      refine .inl ⟨before, text, after, ?_, hstands⟩
      rw [← heq, List.nil_append]
      exact hcut.text_eq
    · obtain rfl := List.mem_singleton.mp ht
      exact .inr rfl
  · simp only [hfault] at h
    cases h

end UiScript.Token

namespace UiScript.Syntax

open Token (TextOf Stands placeAfter endRow)

/-! ### The tokens of a program -/

inductive Occurs (source file : String) : Token → Prop
  | token {t : Token} {ts : List Token} (h : Token.tokenize source file = .ok ts) (ht : t ∈ ts) :
      Occurs source file t
  | fragment {t u : Token} {fragment : List Char} {file' : String} {us : List Token}
      (h : Occurs source file t) (htemplate : t.template)
      (hhole : .hole fragment ∈ (segments [] t.value.toList).1)
      (hus : Token.tokenize (String.ofList fragment) file' = .ok us) (hu : u ∈ us) :
      Occurs source file u

/-- Where such a token comes from. -/
inductive Sourced (source file : String) (t : Token) : Prop
  | spot (h : Stands source file t)
  | fragment {text : List Char} (hwithin : text <:+: source.toList) (hquote : '\x60' ∉ text)
      (htext : TextOf text t.row)
  | ending (h : t.row = endRow)

def BackQuoted (source file : String) (p : Option Place) (raw : List Char) : Prop :=
  ∃ before after, source.toList = before ++ '\x60' :: (raw ++ '\x60' :: after) ∧ '\x60' ∉ raw ∧
    p = some (placeAfter file before)

namespace Sourced

variable {source file : String} {t : Token}

lemma inSource (h : Sourced source file t) :
    (∃ text, text <:+: source.toList ∧ TextOf text t.row) ∨ t.row = endRow := by
  cases h with
  | spot h =>
    obtain ⟨before, text, after, heq, htext, -⟩ := h
    exact .inl ⟨text, ⟨before, after, heq.symm⟩, htext⟩
  | fragment hwithin _ htext => exact .inl ⟨_, hwithin, htext⟩
  | ending h => exact .inr h

lemma backQuoted (h : Sourced source file t) (htemplate : t.template) :
    BackQuoted source file t.place t.value.toList := by
  have hrow : t.row.template := htemplate
  have hbody {text : List Char} (htext : TextOf text t.row) :
      '\x60' ∉ t.value.toList ∧ text = '\x60' :: (t.value.toList ++ ['\x60']) := by
    generalize hr : t.row = r at htext hrow
    cases htext with
    | @template body hbody =>
      have hvalue : t.value = String.ofList body := congrArg Token.Row.value hr
      rw [hvalue, String.toList_ofList]
      exact ⟨hbody, rfl⟩
    | _ => cases hrow
  cases h with
  | spot h =>
    obtain ⟨before, text, after, heq, htext, hplace⟩ := h
    obtain ⟨hquote, rfl⟩ := hbody htext
    refine ⟨before, after, ?_, hquote, congrArg some hplace⟩
    rw [heq]
    simp only [List.append_assoc, List.cons_append, List.nil_append]
  | fragment _ hquote htext =>
    rw [(hbody htext).2] at hquote
    exact absurd List.mem_cons_self hquote
  | ending h =>
    rw [h] at hrow
    cases hrow

lemma of_fragment (h : Sourced source file t) (htemplate : t.template) {fragment : List Char}
    (hhole : .hole fragment ∈ (segments [] t.value.toList).1) {file' : String} {us : List Token}
    (hus : Token.tokenize (String.ofList fragment) file' = .ok us) :
    ∀ u ∈ us, Sourced source file u := by
  intro u hu
  obtain ⟨before, after, heq, hquote, -⟩ := h.backQuoted htemplate
  rcases Token.stands_of_tokenize hus u hu with ⟨ahead, text, behind, hcut, htext, -⟩ | hend
  · rw [String.toList_ofList] at hcut
    have hwithin : text <:+: t.value.toList := by
      refine List.IsInfix.trans ⟨'$' :: '\x7b' :: ahead, behind ++ ['\x7d'], ?_⟩
        (infix_of_hole hhole)
      rw [Segment.spelling, hcut]
      simp
    refine .fragment (hwithin.trans ?_) (fun hmem => hquote (hwithin.subset hmem)) htext
    exact ⟨before ++ ['\x60'], '\x60' :: after, by simp [heq]⟩
  · exact .ending hend

end Sourced

lemma Occurs.sourced {source file : String} {t : Token} (h : Occurs source file t) :
    Sourced source file t := by
  induction h with
  | token h ht => exact (Token.stands_of_tokenize h _ ht).elim .spot .ending
  | fragment _ htemplate hhole hus hu ih => exact ih.of_fragment htemplate hhole hus _ hu

lemma occurs_of_parse {source file : String} {p : Program} (h : Program.parse source file = .ok p) :
    ∀ n ∈ p.body, Drawn (Occurs source file) .statement n :=
  drawn_of_parse (fun _ ht htemplate _ hhole _ _ hus _ hu => .fragment ht htemplate hhole hus hu)
    (fun _ hts _ ht => .token hts ht) h

end UiScript.Syntax
