import UiScript.Proofs.Dom.Statement
import UiScript.Proofs.Script.Strings
import UiScript.Proofs.Syntax.Outline
import UiScript.Proofs.Syntax.Reading

/-!
# The properties that keys stand for

A key that is a name is written as it is, and any other one as a string literal. The test for names
overlooks a line feed at the end of a key. Behind a name a line feed says nothing, so such a key
stands for the property without it.
-/

namespace UiScript.Script

open List

open Dom (isVariable)

/-- The property that a key in code stands for: a string literal for its value, and a name for
itself, whether or not lines end behind it. -/
def property? (code : String) : Option String :=
  match code.toList with
  | '"' :: cs =>
    match Dom.quoted? '"' cs with
    | some (value, []) => some (String.ofList value)
    | _ => none
  | cs =>
    let name := String.ofList (cs.takeWhile isKeyChar)
    if isVariable name && (cs.dropWhile isKeyChar).all (· == '\n') then some name else none

variable {name : String}

lemma isVariable_iff :
    isVariable name ↔ ∃ c cs, name.toList = c :: cs ∧ isKeyStart c ∧ cs.all isKeyChar := by
  unfold isVariable
  split
  next h => simp [h]
  next c cs h => simp [h]

/-- Lines may end behind a name. -/
lemma property?_name {ends : String} (h : isVariable name)
    (hends : ends.toList.all (· == '\n')) : property? (name ++ ends) = some name := by
  obtain ⟨c, cs, hname, hc, hcs⟩ := isVariable_iff.mp h
  have hall : name.toList.all isKeyChar := by
    rw [hname, all_cons, Bool.and_eq_true]
    exact ⟨Bool.or_eq_true_iff.mpr (.inl hc), hcs⟩
  have hheads : Token.Heads (!isKeyChar ·) ends.toList := by
    intro d hd
    obtain rfl : d = '\n' := by simpa using all_eq_true.mp hends d (mem_of_mem_head? hd)
    decide
  unfold property?
  rw [String.toList_append]
  split
  next hquote =>
    rw [hname] at hquote
    cases hquote
    exact absurd hc (by decide)
  next => simp [Token.takeWhile_append_heads hall hheads, Token.dropWhile_append_heads hall hheads,
      h, hends]

lemma property?_stringLiteral (key : String) : property? (stringLiteral key) = some key := by
  have hvalue := Dom.quoted?_of_denotes (denotes_quotedBody key.toList) []
  rw [append_nil] at hvalue
  simp [property?, stringLiteral_toList, hvalue]

lemma isVariable_feed (name : String) : isVariable (name ++ "\n") = false := by
  refine Bool.eq_false_iff.mpr fun h => ?_
  obtain ⟨c, cs, hname, hc, hcs⟩ := isVariable_iff.mp h
  have hfeed : '\n' ∈ c :: cs := by simp [← hname]
  rcases mem_cons.mp hfeed with rfl | hmem
  · exact absurd hc (by decide)
  · exact absurd (all_eq_true.mp hcs _ hmem) (by decide)

lemma isBareKey_iff (key : String) :
    isBareKey key.toList ↔ isVariable key ∨ ∃ name, isVariable name ∧ key = name ++ "\n" := by
  constructor
  · intro h
    cases hkey : key.toList with
    | nil => rw [hkey] at h; cases h
    | cons c cs =>
      rw [hkey] at h
      obtain ⟨hc, hcs⟩ := Bool.and_eq_true_iff.mp h
      split_ifs at hcs with hlast
      · have hsplit := dropLast_append_getLast? '\n' (eq_of_beq hlast)
        refine .inr ⟨String.ofList (c :: cs.dropLast), isVariable_iff.mpr ⟨c, _, ?_, hc, hcs⟩, ?_⟩
        · exact String.toList_ofList
        · rw [← String.toList_inj, hkey, String.toList_append, String.toList_ofList]
          exact congrArg (c :: ·) hsplit.symm
      · exact .inl (isVariable_iff.mpr ⟨c, cs, hkey, hc, hcs⟩)
  · rintro (h | ⟨name, h, rfl⟩)
    · obtain ⟨c, cs, hkey, hc, hcs⟩ := isVariable_iff.mp h
      rw [hkey, isBareKey, Bool.and_eq_true]
      refine ⟨hc, ?_⟩
      split_ifs
      · exact all_eq_true.mpr fun d hd => all_eq_true.mp hcs d (dropLast_subset cs hd)
      · exact hcs
    · obtain ⟨c, cs, hname, hc, hcs⟩ := isVariable_iff.mp h
      have hkey : (name ++ "\n").toList = c :: (cs ++ ['\n']) := by simp [hname]
      simp [hkey, isBareKey, hc, hcs]

lemma objectKey_name {ends : String} (h : isVariable name) (hends : ends = "" ∨ ends = "\n") :
    objectKey (name ++ ends) = name ++ ends ∧ property? (objectKey (name ++ ends)) = some name := by
  have hcode : objectKey (name ++ ends) = name ++ ends := by
    refine if_pos ((isBareKey_iff _).mpr ?_)
    rcases hends with rfl | rfl
    · exact .inl (by rwa [String.append_empty])
    · exact .inr ⟨name, h, rfl⟩
  refine ⟨hcode, ?_⟩
  rw [hcode]
  exact property?_name h (by rcases hends with rfl | rfl <;> rfl)

/-- A key is a name, a name with a line feed, or written as a string literal. -/
lemma objectKey_cases (key : String) :
    isVariable key ∧ objectKey key = key ∧ property? (objectKey key) = some key ∨
    (∃ name, isVariable name ∧ key = name ++ "\n" ∧ objectKey key = key ∧
      property? (objectKey key) = some name) ∨
    (¬ ∃ name, isVariable name ∧ key = name ++ "\n") ∧ objectKey key = stringLiteral key ∧
      property? (objectKey key) = some key := by
  by_cases h : isBareKey key.toList
  · rcases (isBareKey_iff key).mp h with hname | ⟨name, hname, rfl⟩
    · have hself := objectKey_name hname (.inl rfl)
      rw [String.append_empty] at hself
      exact .inl ⟨hname, hself⟩
    · exact .inr (.inl ⟨name, hname, rfl, objectKey_name hname (.inr rfl)⟩)
  · have hcode : objectKey key = stringLiteral key := if_neg h
    have hfeed := (not_or.mp (mt (isBareKey_iff key).mpr h)).2
    exact .inr (.inr ⟨hfeed, hcode, hcode ▸ property?_stringLiteral key⟩)

lemma property?_objectKey_iff (key : String) :
    property? (objectKey key) = some key ↔ ¬ ∃ name, isVariable name ∧ key = name ++ "\n" := by
  rcases objectKey_cases key with
    ⟨hname, -, hself⟩ | ⟨name, hname, rfl, -, hother⟩ | ⟨hno, -, hself⟩
  · refine iff_of_true hself ?_
    rintro ⟨name, -, rfl⟩
    rw [isVariable_feed] at hname
    cases hname
  · refine iff_of_false (fun hself => ?_) (not_not_intro ⟨name, hname, rfl⟩)
    rw [hother, Option.some.injEq] at hself
    simpa using congrArg String.length hself
  · exact iff_of_true hself hno

/-- A key stands for itself, or for a name that it only adds a line feed to. -/
lemma exists_property (key : String) :
    ∃ name, property? (objectKey key) = some name ∧
      (name = key ∨ isVariable name ∧ key = name ++ "\n") := by
  rcases objectKey_cases key with ⟨-, -, hself⟩ | ⟨name, hname, hkey, -, hother⟩ | ⟨-, -, hself⟩
  · exact ⟨key, hself, .inl rfl⟩
  · exact ⟨name, hother, .inr ⟨hname, hkey⟩⟩
  · exact ⟨key, hself, .inl rfl⟩

/-- Different keys stand for one property only if one is a name and the other adds a line feed. -/
lemma property?_eq_iff (key other : String) :
    property? (objectKey key) = property? (objectKey other) ↔ key = other ∨
      isVariable key ∧ other = key ++ "\n" ∨ isVariable other ∧ key = other ++ "\n" := by
  constructor
  · intro heq
    obtain ⟨name, hname, hkey⟩ := exists_property key
    obtain ⟨name', hname', hother⟩ := exists_property other
    obtain rfl : name = name' := Option.some.inj (hname.symm.trans (heq.trans hname'))
    rcases hkey with rfl | ⟨hword, rfl⟩ <;> rcases hother with rfl | ⟨hword', rfl⟩
    · exact .inl rfl
    · exact .inr (.inl ⟨hword', rfl⟩)
    · exact .inr (.inr ⟨hword, rfl⟩)
    · exact .inl rfl
  · have hsame {name : String} (h : isVariable name) :
        property? (objectKey name) = property? (objectKey (name ++ "\n")) := by
      have hself := (objectKey_name h (.inl rfl)).2
      rw [String.append_empty] at hself
      rw [hself, (objectKey_name h (.inr rfl)).2]
    rintro (rfl | ⟨h, rfl⟩ | ⟨h, rfl⟩)
    · rfl
    · exact hsame h
    · exact (hsame h).symm

/-- Props have the names of attributes, in which no line ends, with or without the first sign. -/
lemma property?_prop {p : Program} {source file : String} (h : Program.parse source file = .ok p)
    {place : Option Place} {props : List (Entry Node)} {children : List Node}
    {closed : Bool} (huse : .use place name props children closed ∈ Node.outlineList p.body)
    {e : Entry Node} (he : e ∈ props) {key : String}
    (hkey : key ∈ [e.name, String.ofList (e.name.toList.drop 1)]) :
    property? (objectKey key) = some key := by
  obtain ⟨_, hread, -⟩ := Syntax.readable_of_mem_outline (Syntax.grammatical_of_parse h) _ huse
  have hlabel : Syntax.isAttributeName e.name := by
    cases hread with
    | use _ _ hnames => exact (hnames e he).1
  have hfeed : '\n' ∉ e.name.toList :=
    Syntax.notMem_of_isAttributeName (by decide) (by decide) hlabel
  have hmem : '\n' ∉ key.toList := by
    simp only [mem_cons, not_mem_nil, or_false] at hkey
    rcases hkey with rfl | rfl
    · exact hfeed
    · rw [String.toList_ofList]
      exact mt mem_of_mem_drop hfeed
  refine (property?_objectKey_iff key).mpr ?_
  rintro ⟨other, -, rfl⟩
  simp at hmem

/-- A key stands for itself, as a name or as a string literal, unless it is a name with a line feed
behind it. Such a key is written as it is and stands for the name, so these two are the only
different keys that stand for one property. Props are not concerned, whether or not the sign of an
event is left out. -/
theorem objectKey_property (key : String) :
    (isVariable key ∧ objectKey key = key ∨ objectKey key = stringLiteral key ∨
      ∃ name, isVariable name ∧ key = name ++ "\n" ∧ objectKey key = key ∧
        property? (objectKey key) = some name) ∧
    (property? (objectKey key) = some key ↔ ¬ ∃ name, isVariable name ∧ key = name ++ "\n") ∧
    (∀ other, property? (objectKey key) = property? (objectKey other) ↔ key = other ∨
      isVariable key ∧ other = key ++ "\n" ∨ isVariable other ∧ key = other ++ "\n") ∧
    ∀ source file p, Program.parse source file = .ok p → ∀ place name props children closed,
      .use place name props children closed ∈ Node.outlineList p.body →
        ∀ e ∈ props, ∀ key ∈ [e.name, String.ofList (e.name.toList.drop 1)],
          property? (objectKey key) = some key := by
  refine ⟨?_, property?_objectKey_iff key, property?_eq_iff key, ?_⟩
  · rcases objectKey_cases key with ⟨hname, hcode, -⟩ | hfeed | ⟨-, hcode, -⟩
    · exact .inl ⟨hname, hcode⟩
    · exact .inr (.inr hfeed)
    · exact .inr (.inl hcode)
  · intro source file p hp place name props children closed huse e he key hkey
    exact property?_prop hp huse he hkey

end UiScript.Script
