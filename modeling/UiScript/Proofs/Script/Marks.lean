import UiScript.Proofs.Dom.Statement
import UiScript.Proofs.Script.Shift
import UiScript.Script.Basic

/-!
# Code without marks

Some texts may not get into code unasked: the mark `</`, which would end the script inside its page,
and the names that a component binds for its own use. A text without such a mark is built from texts
without it, if at each seam there is a character on one side that the mark does not have. That holds
of all pieces of code, so it is enough to look at the pieces.
-/

namespace UiScript.Script

open List

/-- What code is to be free of. -/
inductive Mark where
  /-- The start of a closing tag. -/
  | closing
  | render
  /-- The state of a component. -/
  | state
  deriving DecidableEq

namespace Mark

def text : Mark → String
  | closing => "</"
  | render => "__render"
  | state => "__state"

def first : Mark → Char
  | closing => '<'
  | render | state => '_'

def has : Mark → Char → Bool
  | closing, c => c == '<' || c == '/'
  | render, c | state, c => ('a' ≤ c && c ≤ 'z') || c == '_'

end Mark

def Free (k : Mark) (s : String) : Prop := ¬ k.text.toList <:+: s.toList

instance (k : Mark) (s : String) : Decidable (Free k s) := inferInstanceAs (Decidable (¬ _))

def FreeAll (k : Mark) (ss : List String) : Prop := ∀ s ∈ ss, Free k s

/-- If it is a name of components that is looked for, the text does not have it. -/
def NameFree (k : Mark) (s : String) : Prop := k ≠ .closing → Free k s

namespace Mark

/-- A text that nothing behind it can complete to the mark. -/
def opens (k : Mark) (s : String) : Bool :=
  decide (Free k s) && s.toList.getLast?.all (!k.has ·)

/-- A text that can complete nothing before it to the mark. -/
def closes (k : Mark) (s : String) : Bool :=
  decide (Free k s) && s.toList.head?.all (!k.has ·)

/-- The property holds of all marks. -/
def forall? (p : Mark → Bool) : Bool := p closing && p render && p state

lemma of_forall? {p : Mark → Bool} (h : forall? p) (k : Mark) : p k := by
  simp only [forall?, Bool.and_eq_true] at h
  cases k with
  | closing => exact h.1.1
  | render => exact h.1.2
  | state => exact h.2

end Mark

def isFree (s : String) : Bool := Mark.forall? fun k => decide (Free k s)

def isOpening (s : String) : Bool := Mark.forall? (·.opens s)

def isClosing (s : String) : Bool := Mark.forall? (·.closes s)

variable {k : Mark} {a b s : String} {cs : List Char} {c : Char}

/-! ### Numbers -/

/-- A character of a number that is written, or of one that is not finite. -/
def isNumeralChar (c : Char) : Bool := Text.isAsciiDigit c || "+-.aefinlrsuFT".toList.contains c

/-- A text of such characters. -/
def Numeral (s : String) : Prop := s.toList.all isNumeralChar = true

instance (s : String) : Decidable (Numeral s) := inferInstanceAs (Decidable (_ = true))

lemma numeral_iff : Numeral s ↔ ∀ c ∈ s.toList, isNumeralChar c := all_eq_true

lemma Numeral.append {t : String} (hs : Numeral s) (ht : Numeral t) : Numeral (s ++ t) := by
  unfold Numeral
  rw [String.toList_append, all_append, hs, ht]
  rfl

lemma numeral_ofList (h : ∀ c ∈ cs, isNumeralChar c) : Numeral (String.ofList cs) := by
  rwa [numeral_iff, String.toList_ofList]

lemma isNumeralChar_digit (h : Text.isAsciiDigit c) : isNumeralChar c :=
  Bool.or_eq_true_iff.mpr (.inl h)

lemma numeral_repr (n : Nat) : Numeral n.repr := by
  refine numeral_iff.mpr fun c hc => ?_
  rw [Nat.toList_repr] at hc
  exact isNumeralChar_digit (Token.isAsciiDigit_of_mem hc)

lemma numeral_int (n : Int) : Numeral (toString n) := by
  cases n with
  | ofNat n => exact numeral_repr n
  | negSucc n => exact Numeral.append (s := "-") (by decide) (numeral_repr (n + 1))

lemma numeral_exponentText (e : Int) : Numeral (Binary64.exponentText e) := by
  refine Numeral.append ?_ ?_
  · split_ifs <;> decide
  · split_ifs
    · exact Numeral.append (s := "0") (by decide) (numeral_repr _)
    · exact numeral_repr _

lemma numeral_decimalText {digits : List Char} (h : ∀ c ∈ digits, isNumeralChar c) (point : Int) :
    Numeral (Binary64.decimalText digits point) := by
  have hzeros (n : Nat) : ∀ c ∈ List.replicate n '0', isNumeralChar c := by
    intro c hc
    rw [eq_of_mem_replicate hc]
    rfl
  have hpoint : Numeral "." := by decide
  have hexponent : Numeral ("e" ++ Binary64.exponentText (point - 1)) :=
    Numeral.append (s := "e") (by decide) (numeral_exponentText _)
  unfold Binary64.decimalText
  dsimp only
  split_ifs
  · refine Numeral.append (s := "0.") (by decide) (numeral_ofList ?_)
    exact forall_mem_append.mpr ⟨hzeros _, h⟩
  · refine Numeral.append (t := ".0") (numeral_ofList ?_) (by decide)
    exact forall_mem_append.mpr ⟨h, hzeros _⟩
  · have htake : Numeral (String.ofList (digits.take point.toNat)) :=
      numeral_ofList fun c hc => h c (mem_of_mem_take hc)
    exact (htake.append hpoint).append (numeral_ofList fun c hc => h c (mem_of_mem_drop hc))
  · cases digits with
    | nil => exact (by decide : Numeral "0.0")
    | cons d rest =>
      obtain ⟨hd, hrest⟩ := forall_mem_cons.mp h
      have hfirst : Numeral (String.ofList [d]) := numeral_ofList (forall_mem_singleton.mpr hd)
      cases rest with
      | nil =>
        dsimp only
        rw [String.append_assoc]
        exact hfirst.append hexponent
      | cons =>
        dsimp only
        rw [String.append_assoc]
        exact ((hfirst.append hpoint).append (numeral_ofList hrest)).append hexponent

lemma numeral_toText (x : Binary64) : Numeral x.toText := by
  cases x with
  | nan => decide
  | infinite s => cases s <;> decide
  | finite s m e =>
    have hmagnitude : Numeral (if m == 0 then "0.0" else
        Binary64.decimalText
          ((Nat.toDigits 10 (Binary64.shortest m e).1).reverse.dropWhile (· == '0')).reverse
          ((Nat.toDigits 10 (Binary64.shortest m e).1).length + (Binary64.shortest m e).2)) := by
      split_ifs
      · decide
      · refine numeral_decimalText (fun c hc => ?_) _
        have hmem := (dropWhile_sublist _).subset (mem_reverse.mp hc)
        exact isNumeralChar_digit (Token.isAsciiDigit_of_mem (mem_reverse.mp hmem))
    cases s with
    | false => exact hmagnitude
    | true => exact Numeral.append (s := "-") (by decide) hmagnitude

lemma numeral_numericText (value : Numeric) : Numeral (numericText value) := by
  cases value with
  | truth b => cases b <;> decide
  | number n =>
    cases n with
    | int n => exact numeral_int n
    | float x =>
      change Numeral (floatText x)
      unfold floatText
      split
      · exact numeral_int _
      · exact numeral_toText x

namespace Free

lemma of_isFree (h : isFree s) : Free k s := of_decide_eq_true (Mark.of_forall? h k)

lemma of_within (h : Free k s) (hwithin : a.toList <:+: s.toList) : Free k a :=
  fun hmark => h (hmark.trans hwithin)

lemma drop_one (h : Free k s) : Free k (String.ofList (s.toList.drop 1)) := by
  refine h.of_within ?_
  rw [String.toList_ofList]
  exact (drop_suffix _ _).isInfix

lemma text_eq : ∃ w, k.text.toList = k.first :: w := by
  cases k <;> exact ⟨_, rfl⟩

lemma of_notMem (h : k.first ∉ s.toList) : Free k s := by
  obtain ⟨w, hw⟩ := text_eq (k := k)
  exact fun hmark => h (hmark.subset (hw ▸ mem_cons_self))

lemma has_of_mem : ∀ c ∈ k.text.toList, k.has c :=
  all_eq_true.mp (by cases k <;> decide)

/-- Two texts with a seam that the mark cannot cross. -/
lemma append_iff (h : (∀ c ∈ a.toList.getLast?, k.has c = false) ∨
      ∀ c ∈ b.toList.head?, k.has c = false) :
    Free k (a ++ b) ↔ Free k a ∧ Free k b := by
  unfold Free
  rw [String.toList_append, ← not_or, not_iff_not, infix_append_iff_ne_nil, ← or_assoc]
  refine or_iff_left fun hcross => ?_
  obtain ⟨l₁, l₂, hne₁, hne₂, heq, hsuffix, hprefix⟩ := hcross
  have hchar : ∀ c ∈ l₁ ++ l₂, k.has c := heq ▸ has_of_mem
  rcases h with h | h
  · obtain ⟨before, hbefore⟩ := hsuffix
    have hlast := h (l₁.getLast hne₁) (by
      rw [← hbefore, getLast?_append_of_ne_nil _ hne₁]
      exact getLast?_eq_some_getLast hne₁)
    rw [hchar _ (mem_append_left _ (getLast_mem hne₁))] at hlast
    cases hlast
  · obtain ⟨after, hafter⟩ := hprefix
    have hhead := h (l₂.head hne₂) (by
      rw [← hafter, head?_append_of_ne_nil _ hne₂]
      exact head?_eq_some_head hne₂)
    rw [hchar _ (mem_append_right _ (head_mem hne₂))] at hhead
    cases hhead

/-! ### Seams with pieces that are the same for one mark -/

lemma opens_append (h : k.opens a) : Free k (a ++ b) ↔ Free k b := by
  obtain ⟨hfree, hlast⟩ := Bool.and_eq_true_iff.mp h
  rw [append_iff (.inl fun c hc => ?_), and_iff_right (of_decide_eq_true hfree)]
  simpa using (Option.all_eq_true _ _).mp hlast c hc

lemma append_closes (h : k.closes b) : Free k (a ++ b) ↔ Free k a := by
  obtain ⟨hfree, hhead⟩ := Bool.and_eq_true_iff.mp h
  rw [append_iff (.inr fun c hc => ?_), and_iff_left (of_decide_eq_true hfree)]
  simpa using (Option.all_eq_true _ _).mp hhead c hc

/-- A text between two others. -/
lemma append_closes_append {m : String} (h : k.closes m) (hne : m.toList ≠ []) :
    Free k (a ++ (m ++ b)) ↔ Free k a ∧ Free k (m ++ b) := by
  obtain ⟨-, hhead⟩ := Bool.and_eq_true_iff.mp h
  refine append_iff (.inr fun c hc => ?_)
  rw [String.toList_append, head?_append_of_ne_nil _ hne] at hc
  simpa using (Option.all_eq_true _ _).mp hhead c hc

/-! ### Seams with pieces that are the same for all marks -/

@[simp] lemma opening_append (h : isOpening a) : Free k (a ++ b) ↔ Free k b :=
  opens_append (Mark.of_forall? h k)

@[simp] lemma append_closing (h : isClosing b) : Free k (a ++ b) ↔ Free k a :=
  append_closes (Mark.of_forall? h k)

@[simp] lemma append_closing_append {m : String} (h : isClosing m) (hne : m.toList ≠ []) :
    Free k (a ++ (m ++ b)) ↔ Free k a ∧ Free k (m ++ b) :=
  append_closes_append (Mark.of_forall? h k) hne

/-! ### Lists of texts -/

variable {ss : List String}

lemma intercalate {sep : String} (hsep : isOpening sep ∧ isClosing sep ∧ sep.toList ≠ [])
    (h : FreeAll k ss) :
    Free k (String.intercalate sep ss) := by
  induction ss with
  | nil =>
    rw [String.intercalate_nil]
    exact of_isFree (by decide)
  | cons s ss ih =>
    obtain ⟨hs, hss⟩ := forall_mem_cons.mp h
    cases ss with
    | nil => exact String.intercalate_singleton ▸ hs
    | cons =>
      rw [String.intercalate_cons_cons, String.append_assoc,
        append_closing_append hsep.2.1 hsep.2.2, opening_append hsep.1]
      exact ⟨hs, ih hss⟩

lemma commaSeparated (h : FreeAll k ss) : Free k (commaSeparated ss) :=
  intercalate (by decide) h

lemma unlines (h : FreeAll k ss) : Free k (Text.unlines ss) :=
  intercalate (by decide) h

@[simp] lemma braced_iff : Free k (braced s) ↔ Free k s := by
  rw [braced, String.append_assoc, opening_append (by decide), append_closing (by decide)]

lemma of_intercalate {sep : String} (h : Free k (String.intercalate sep ss)) : FreeAll k ss := by
  intro s hs
  have hwithin := infix_intercalate sep ((singleton_infix_iff s _).mpr hs)
    (cons_ne_nil _ _)
  exact h.of_within hwithin

lemma lines (h : Free k s) : FreeAll k (Text.lines s) := by
  rw [← unlines_lines s] at h
  exact of_intercalate h

lemma padLines {pad : String} (hpad : isOpening pad) (h : Free k s) :
    Free k (Text.padLines pad s) := by
  refine unlines (forall_mem_map.mpr fun line hline => ?_)
  have hfree := h.lines line hline
  split_ifs
  · exact hfree
  · exact (opening_append hpad).mpr hfree

lemma indent (h : Free k s) : Free k (Text.indent 1 s) := h.padLines (by decide)

lemma between (h : Free k s) : Free k (braced ("\n" ++ Text.indent 1 s ++ "\n")) := by
  rw [braced_iff, String.append_assoc, opening_append (by decide), append_closing (by decide)]
  exact h.indent

/-! ### Escapes -/

lemma infix_cons_iff (hc : c ≠ k.first) : k.text.toList <:+: c :: cs ↔ k.text.toList <:+: cs := by
  obtain ⟨w, hw⟩ := text_eq (k := k)
  rw [List.infix_cons_iff, hw]
  exact or_iff_right fun hprefix => hc (cons_prefix_cons.mp hprefix).1.symm

lemma backslash_notMem : '\\' ∉ k.text.toList := by
  cases k <;> decide

lemma head?_interpose (a m b : Char) (cs : List Char) :
    (Text.interpose a m b cs).head? = cs.head? := by
  fun_cases Text.interpose a m b cs with
  | case1 => rfl
  | case2 => rfl
  | case3 c d cs h =>
    obtain ⟨hc, -⟩ := Bool.and_eq_true_iff.mp h
    rw [eq_of_beq hc]
    rfl
  | case4 => rfl

/-- A backslash between its characters breaks the mark of a closing tag. -/
lemma closing_breakClosings (s : String) : Free .closing (Script.breakClosings s) := by
  have hwithin (cs : List Char) : ¬ ['<', '/'] <:+: Text.interpose '<' '\\' '/' cs := by
    fun_induction Text.interpose '<' '\\' '/' cs with
    | case1 => decide
    | case2 => exact fun h => absurd h.length_le (by simp)
    | case3 c d cs hmark ih =>
      intro h
      rcases List.infix_cons_iff.mp h with hstart | h
      · cases (cons_prefix_cons.mp (cons_prefix_cons.mp hstart).2).1
      · exact ih ((infix_cons_iff (k := .closing) (by decide)).mp h)
    | case4 c d cs hmark ih =>
      intro h
      rcases List.infix_cons_iff.mp h with hstart | h
      · obtain ⟨rfl, ⟨rest, hrest⟩⟩ := cons_prefix_cons.mp hstart
        have hhead := head?_interpose '<' '\\' '/' (d :: cs)
        rw [← hrest] at hhead
        cases hhead
        exact hmark rfl
      · exact ih h
  rw [Free, Script.breakClosings, String.toList_ofList]
  exact hwithin _

lemma prefix_of_interpose {w : List Char} (hback : '\\' ∉ w)
    (h : w <+: Text.interpose '<' '\\' '/' cs) : w <+: cs := by
  fun_induction Text.interpose '<' '\\' '/' cs generalizing w with
  | case1 => exact h
  | case2 => exact h
  | case3 c d cs hmark =>
    obtain rfl := eq_of_beq (Bool.and_eq_true_iff.mp hmark).1
    cases w with
    | nil => exact nil_prefix
    | cons e w =>
      obtain ⟨he, h⟩ := cons_prefix_cons.mp h
      cases w with
      | nil => exact cons_prefix_cons.mpr ⟨he, nil_prefix⟩
      | cons =>
        obtain ⟨rfl, -⟩ := cons_prefix_cons.mp h
        exact absurd (mem_cons_of_mem _ mem_cons_self) hback
  | case4 c d cs _ ih =>
    cases w with
    | nil => exact nil_prefix
    | cons =>
      obtain ⟨he, h⟩ := cons_prefix_cons.mp h
      exact cons_prefix_cons.mpr ⟨he, ih (fun he => hback (mem_cons_of_mem _ he)) h⟩

/-- Breaking a closing tag puts no name together. -/
lemma breakClosings (h : NameFree k s) : Free k (breakClosings s) := by
  by_cases hk : k = .closing
  · exact hk ▸ closing_breakClosings s
  have hwithin (cs : List Char) (hmark : k.text.toList <:+: Text.interpose '<' '\\' '/' cs) :
      k.text.toList <:+: cs := by
    fun_induction Text.interpose '<' '\\' '/' cs with
    | case1 => exact hmark
    | case2 => exact hmark
    | case3 c d cs _ ih =>
      have hfirst : '<' ≠ k.first ∧ '\\' ≠ k.first := by
        cases k with
        | closing => exact absurd rfl hk
        | render | state => decide
      rw [infix_cons_iff hfirst.1, infix_cons_iff hfirst.2] at hmark
      exact infix_cons (ih hmark)
    | case4 c d cs hnot ih =>
      rcases List.infix_cons_iff.mp hmark with hstart | hmark
      · refine IsPrefix.isInfix (prefix_of_interpose backslash_notMem ?_)
        rwa [Text.interpose, if_neg hnot]
      · exact infix_cons (ih hmark)
  intro hmark
  rw [Script.breakClosings, String.toList_ofList] at hmark
  exact h hk (hwithin _ hmark)

lemma prefix_of_escaped {w : List Char} (hback : '\\' ∉ w)
    (h : w <+: cs.flatMap (Json.stringChar fun c => ' ' ≤ c)) : w <+: cs := by
  induction cs generalizing w with
  | nil => exact h
  | cons c cs ih =>
    cases w with
    | nil => exact nil_prefix
    | cons =>
      rw [flatMap_cons] at h
      rcases Dom.stringChar_spec c with ⟨hc, -⟩ | ⟨ds, hc, -⟩
      · rw [hc, singleton_append, cons_prefix_cons] at h
        exact cons_prefix_cons.mpr
          ⟨h.1, ih (fun he => hback (mem_cons_of_mem _ he)) h.2⟩
      · rw [hc, cons_append, cons_prefix_cons] at h
        exact absurd (h.1 ▸ mem_cons_self) hback

lemma infix_of_escaped (h : k.text.toList <:+: cs.flatMap (Json.stringChar fun c => ' ' ≤ c)) :
    k.text.toList <:+: cs := by
  have hfirst : k.first ∉ '\\' :: Dom.escapeChars := by cases k <;> decide
  have hescape (d : Char) (hd : d ∈ '\\' :: Dom.escapeChars) : d ≠ k.first :=
    fun heq => hfirst (heq ▸ hd)
  induction cs with
  | nil => exact h
  | cons c cs ih =>
    rcases Dom.stringChar_spec c with ⟨hc, -⟩ | ⟨ds, hc, hds⟩
    · rw [flatMap_cons, hc, singleton_append, List.infix_cons_iff] at h
      rcases h with hstart | h
      · refine IsPrefix.isInfix (prefix_of_escaped backslash_notMem ?_)
        rwa [flatMap_cons, hc]
      · exact infix_cons (ih h)
    · have hskip (rest : List Char) :
          k.text.toList <:+: ds ++ rest ↔ k.text.toList <:+: rest := by
        clear hc
        induction ds with
        | nil => rfl
        | cons d ds ihd =>
          obtain ⟨hd, hds⟩ := forall_mem_cons.mp hds
          rw [cons_append, infix_cons_iff (hescape d (mem_cons_of_mem _ hd)), ihd hds]
      rw [flatMap_cons, hc, cons_append, infix_cons_iff (hescape _ mem_cons_self),
        hskip] at h
      exact infix_cons (ih h)

lemma stringLiteral (h : NameFree k s) : Free k (stringLiteral s) := by
  refine breakClosings fun hk => ?_
  have hbody : Free k (String.ofList (s.toList.flatMap (Json.stringChar fun c => ' ' ≤ c))) := by
    intro hmark
    rw [String.toList_ofList] at hmark
    exact h hk (infix_of_escaped hmark)
  have heq : Json.wideString s =
      "\"" ++ (String.ofList (s.toList.flatMap (Json.stringChar fun c => ' ' ≤ c)) ++ "\"") := by
    refine String.toList_inj.mp ?_
    simp [Json.wideString, Json.stringWith]
  rw [heq, opening_append (by decide), append_closing (by decide)]
  exact hbody

/-! ### Names and numbers -/

lemma of_word (hword : Token.isWord s) (h : NameFree k s) : Free k s := by
  by_cases hk : k = .closing
  · obtain ⟨c, cs, hs, hc, hcs⟩ := Token.isWord_iff hword
    subst hk
    refine of_notMem fun hmem => ?_
    rw [hs] at hmem
    rcases mem_cons.mp hmem with rfl | hmem
    · exact absurd hc (by decide)
    · exact absurd (all_eq_true.mp hcs _ hmem) (by decide)
  · exact h hk

lemma isKeyChar_of_isBareKey {key : List Char} (h : isBareKey key) (hc : c ∈ key) :
    isKeyChar c ∨ c = '\n' := by
  cases key with
  | nil => cases hc
  | cons =>
    obtain ⟨hd, hds⟩ := Bool.and_eq_true_iff.mp h
    rcases mem_cons.mp hc with rfl | hc
    · exact .inl (Bool.or_eq_true_iff.mpr (.inl hd))
    · split_ifs at hds with hlast
      · rw [← dropLast_append_getLast? '\n' (eq_of_beq hlast)] at hc
        rcases mem_append.mp hc with hc | hc
        · exact .inl (all_eq_true.mp hds c hc)
        · exact .inr (mem_singleton.mp hc)
      · exact .inl (all_eq_true.mp hds c hc)

lemma objectKey (h : NameFree k s) : Free k (objectKey s) := by
  unfold Script.objectKey
  split_ifs with hbare
  · by_cases hk : k = .closing
    · subst hk
      exact of_notMem fun hmem => by
        rcases isKeyChar_of_isBareKey hbare hmem with hc | hc <;> exact absurd hc (by decide)
    · exact h hk
  · exact stringLiteral h

lemma of_numeral (h : Numeral s) : Free k s :=
  of_notMem fun hmem => absurd (numeral_iff.mp h _ hmem) (by cases k <;> decide)

lemma elementVariable (n : Nat) : Free k ("__e" ++ n.repr) := by
  refine (append_iff (.inr fun c hc => ?_)).mpr
    ⟨of_isFree (by decide), of_numeral (numeral_repr n)⟩
  have hmem : c ∈ n.repr.toList := mem_of_head? hc
  rw [Nat.toList_repr] at hmem
  have hdigits : ∀ n ≤ 57, 48 ≤ n → k.has (Char.ofNat n) = false := by cases k <;> decide
  obtain ⟨hge, hle⟩ := Numeral.digit_bounds (Token.isAsciiDigit_of_mem hmem)
  rw [← Char.ofNat_toNat c]
  exact hdigits _ hle hge

end Free

end UiScript.Script
