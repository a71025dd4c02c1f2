import Mathlib.Tactic.Common
import UiScript.Host.Memory
import UiScript.Settings.Load

/-!
# Faults of settings files

Where a settings file in JSON cannot be used, the fault is blamed on the file in a diagnostic that
names it. Three faults are overlooked and come out as they are: bytes that are no text, an integer
with too many digits, and an interval beyond the floating point numbers.
-/

namespace UiScript

/-! ### How a computation fails -/

/-- The faults of a computation have a property. -/
def Fails {ε α : Type} (P : ε → Prop) (m : Except ε α) : Prop := ∀ e, m = .error e → P e

namespace Fails

variable {ε ε' α β : Type} {P : ε → Prop} {Q : ε' → Prop} {m : Except ε α}

lemma ok (a : α) : Fails P (Except.ok a) := nofun

lemma error {e : ε} (h : P e) : Fails P (Except.error e : Except ε α) :=
  fun _ he => Except.error.inj he ▸ h

lemma bind {f : α → Except ε β} (h : Fails P m) (hf : ∀ a, Fails P (f a)) :
    Fails P (m >>= f) := by
  cases m with
  | ok a => exact hf a
  | error e => exact .error (h e rfl)

lemma mapError {f : ε → ε'} (h : ∀ e, m = .error e → Q (f e)) : Fails Q (m.mapError f) := by
  cases m with
  | ok a => exact .ok a
  | error e => exact .error (h e rfl)

lemma foldlM {f : β → α → Except ε β} {as : List α} (h : ∀ b, ∀ a ∈ as, Fails P (f b a)) (b : β) :
    Fails P (as.foldlM f b) := by
  induction as generalizing b with
  | nil => exact .ok b
  | cons a as ih =>
    rw [List.foldlM_cons]
    exact (h b a List.mem_cons_self).bind fun b =>
      ih (fun b a ha => h b a (List.mem_cons_of_mem _ ha)) b

lemma mapM {f : β → Except ε α} {bs : List β} (h : ∀ b ∈ bs, Fails P (f b)) :
    Fails P (bs.mapM f) := by
  induction bs with
  | nil => exact .ok []
  | cons b bs ih =>
    obtain ⟨hb, hbs⟩ := List.forall_mem_cons.mp h
    rw [List.mapM_cons]
    exact hb.bind fun _ => (ih hbs).bind fun _ => .ok _

end Fails

mutual

lemma Value.shown_fails : ∀ v : Value, Fails (· = .tooManyDigits) v.shown
  | .null | .bool _ | .float _ | .nan _ | .str _ => .ok _
  | .int n => by
    simp only [shown, Number.intText]
    split
    · exact .error rfl
    · exact .ok _
  | .list items => (shownItems_fail items).bind fun _ => .ok _
  | .dict entries => (shownEntries_fail entries).bind fun _ => .ok _

lemma Value.shownItems_fail : ∀ vs : List Value, Fails (· = .tooManyDigits) (shownItems vs)
  | [] => .ok _
  | v :: vs => (shown_fails v).bind fun _ => (shownItems_fail vs).bind fun _ => .ok _

lemma Value.shownEntries_fail :
    ∀ es : List (String × Value), Fails (· = .tooManyDigits) (shownEntries es)
  | [] => .ok _
  | (_, v) :: es => (shown_fails v).bind fun _ => (shownEntries_fail es).bind fun _ => .ok _

end

lemma Value.display_fails (v : Value) : Fails (· = .tooManyDigits) v.display := by
  cases v with
  | str s => exact .ok s
  | _ => exact shown_fails _

namespace Settings

/-! ### Entries -/

variable {entries : Dict Value} {path key : String} {v : Value} {s : Settings}

/-- The fault is blamed on the file. -/
def IsBlamed (e : ValueError) : Prop := e ≠ .number .integerTooLarge

lemma display_blamed (v : Value) : Fails IsBlamed (v.display.mapError .number) := by
  refine .mapError fun e he => ?_
  rw [v.display_fails e he]
  exact nofun

lemma put_blamed (hkey : key ≠ "watch_interval") : Fails IsBlamed (s.put key (.ofValue v)) := by
  have htext : Fails IsBlamed (Setting.ofValue v).text := display_blamed v
  have hpatterns (current : List String) :
      Fails IsBlamed (asPatterns current (Setting.ofValue v)) := by
    cases v with
    | list => exact .mapM (List.forall_mem_map.mpr fun item _ => display_blamed item)
    | _ => exact .ok _
  unfold put
  split
  all_goals first
    | exact .ok _
    | exact htext.bind fun _ => .ok _
    | exact (hpatterns _).bind fun _ => .ok _
    | exact absurd rfl hkey

/-- The settings with the entry of a key, if there is one. -/
def withEntry (entries : Dict Setting) (s : Settings) (key : String) :
    Except ValueError Settings :=
  match entries.get? key with
  | some v => s.put key v
  | none => .ok s

def viewed (entries : Dict Value) : Dict Setting := entries.map fun e => (e.1, .ofValue e.2)

lemma get?_viewed (entries : Dict Value) (key : String) :
    (viewed entries).get? key = (entries.get? key).map .ofValue := by
  induction entries with
  | nil => rfl
  | cons entry entries ih =>
    rw [viewed, List.map_cons, Dict.get?_cons, Dict.get?_cons, apply_ite (Option.map _)]
    exact congrArg (ite _ _) ih

/-- The settings with all entries but the interval. -/
def withFront (entries : Dict Value) : Except ValueError Settings :=
  knownKeys.dropLast.foldlM (withEntry (viewed entries)) {}

lemma withFront_blamed (entries : Dict Value) : Fails IsBlamed (withFront entries) := by
  refine .foldlM (fun s key hkey => ?_) _
  rw [withEntry, get?_viewed]
  cases entries.get? key with
  | none => exact .ok s
  | some => exact put_blamed (by rintro rfl; revert hkey; decide)

/-- The interval is taken over last. -/
lemma ofDict_eq (entries : Dict Value) (path : String) :
    ofDict entries path = (withFront entries >>= fun s =>
      withEntry (viewed entries) s "watch_interval").mapError (blame path) := by
  have hsplit : knownKeys = knownKeys.dropLast ++ ["watch_interval"] := rfl
  have hdict : ofDict entries path =
      (knownKeys.foldlM (withEntry (viewed entries)) {}).mapError (blame path) := rfl
  rw [hdict, hsplit, List.foldlM_append]
  simp only [List.foldlM_cons, List.foldlM_nil, bind_pure]
  rfl

lemma seconds_tooLarge (v : Value) : Setting.secondsOfValue v = .error (.number .integerTooLarge) ↔
    ∃ n, v = .int n ∧ Binary64.ofInt? n = none := by
  cases v with
  | int n =>
    simp only [Setting.secondsOfValue, Setting.secondsOfInt, Number.toFloat]
    cases hn : Binary64.ofInt? n <;> simp [Except.mapError, hn]
  | bool b => cases b <;> exact iff_of_false (fun h => by cases h) (by simp)
  | str s =>
    simp only [Setting.secondsOfValue, Setting.secondsOfText]
    cases Numeral.readFloat s <;> simp [Except.mapError]
  | _ => simp [Setting.secondsOfValue]

/-- All else is blamed on the file. -/
lemma blame_cases (path : String) (e : ValueError) :
    e = .number .integerTooLarge ∧ blame path e = .number .integerTooLarge ∨
      ∃ message, blame path e = .invalid (.settingsError message path) := by
  unfold blame
  split
  · exact .inl ⟨rfl, rfl⟩
  · exact .inr ⟨_, rfl⟩

lemma ofDict_error {e : ReadError} (h : ofDict entries path = .error e) :
    e = .number .integerTooLarge ∨ ∃ message, e = .invalid (.settingsError message path) := by
  rw [ofDict_eq] at h
  generalize withFront entries >>= _ = r at h
  cases r with
  | ok => cases h
  | error e' => exact Except.error.inj h ▸ (blame_cases path e').imp_left And.right

/-- An interval beyond the floating point numbers is overlooked, unless there is another fault. -/
lemma ofDict_tooLarge : ofDict entries path = .error (.number .integerTooLarge) ↔
    (∃ s, withFront entries = .ok s) ∧
      ∃ n, entries.get? "watch_interval" = some (.int n) ∧ Binary64.ofInt? n = none := by
  have herror (e : ValueError) : blame path e = .number .integerTooLarge ↔
      e = .number .integerTooLarge := by
    rcases blame_cases path e with ⟨rfl, h⟩ | ⟨_, h⟩
    · exact iff_of_true h rfl
    · refine ⟨fun h' => ?_, fun h' => h' ▸ rfl⟩
      rw [h] at h'
      cases h'
  rw [ofDict_eq]
  cases hfront : withFront entries with
  | error e =>
    refine iff_of_false (fun h => withFront_blamed entries e hfront ?_) nofun
    exact (herror e).mp (Except.error.inj h)
  | ok s =>
    change (withEntry (viewed entries) s "watch_interval").mapError (blame path) = _ ↔ _
    rw [withEntry, get?_viewed]
    cases entries.get? "watch_interval" with
    | none => exact iff_of_false nofun nofun
    | some v =>
      have hfar := seconds_tooLarge v
      change (Setting.secondsOfValue v >>= fun x =>
        Except.ok { s with watchInterval := x }).mapError (blame path) = _ ↔ _
      cases hseconds : Setting.secondsOfValue v with
      | ok =>
        rw [hseconds] at hfar
        refine iff_of_false nofun fun ⟨_, n, hn, hnone⟩ => ?_
        cases hfar.mpr ⟨n, Option.some.inj hn, hnone⟩
      | error e =>
        rw [hseconds, Except.error.injEq] at hfar
        change Except.error (blame path e) = _ ↔ _
        rw [Except.error.injEq, herror, hfar]
        simp

/-! ### Files -/

/-- The faults of a file that are not blamed on it. -/
inductive Overlooked (bytes : List UInt8) : ReadError → Prop
  | encoding {fault : Text.Utf8.Fault} (h : Text.Utf8.decode bytes = .error fault) :
      Overlooked bytes (.encoding fault)
  | numeral {text : String} {e : NumeralError} (h : Text.Utf8.decode bytes = .ok text)
      (hread : Json.read (Text.unifyNewlines text.toList) = .error (.numeral e)) :
      Overlooked bytes (.numeral e)
  | interval {text : String} {entries : Dict Value} {s : Settings} {n : Int}
      (h : Text.Utf8.decode bytes = .ok text)
      (hread : Json.read (Text.unifyNewlines text.toList) = .ok (.dict entries))
      (hothers : withFront entries = .ok s) (hn : entries.get? "watch_interval" = some (.int n))
      (hfar : Binary64.ofInt? n = none) : Overlooked bytes (.number .integerTooLarge)

/-- What a text in JSON gives. -/
def ofJson (path : String) (text : List Char) : Except ReadError Settings := do
  let s ← ofEntries (← jsonEntries path text) path
  return { s with source := some path }

lemma ofFile_eq (hname : path.endsWith ".json") (bytes : List UInt8) :
    ofFile path bytes = ((Text.Utf8.decode bytes).mapError .encoding >>= fun text =>
      ofJson path (Text.unifyNewlines text.toList)) := by
  simp only [ofFile, hname, if_true]
  rfl

lemma ofJson_dict {text : List Char} (h : Json.read text = .ok (.dict entries)) :
    ofJson path text = (ofDict entries path >>= fun s =>
      .ok { s with source := some path }) := by
  rw [ofJson, jsonEntries, h]
  rfl

/-- The result of reading a file: settings from it, or a fault that is blamed on it. -/
def Told (path : String) (r : Except ReadError Settings) : Prop :=
  (∃ s, r = .ok s ∧ s.source = some path) ∨
    ∃ message, r = .error (.invalid (.settingsError message path))

lemma ofFile_of_overlooked {bytes : List UInt8} {e : ReadError} (hname : path.endsWith ".json")
    (h : Overlooked bytes e) : ofFile path bytes = .error e := by
  rw [ofFile_eq hname]
  cases h with
  | encoding h => rw [h]; rfl
  | numeral h hread =>
    rw [h]
    change ofJson _ _ = _
    rw [ofJson, jsonEntries, hread]
    rfl
  | interval h hread hothers hn hfar =>
    rw [h]
    change ofJson _ _ = _
    rw [ofJson_dict hread, ofDict_tooLarge.mpr ⟨⟨_, hothers⟩, _, hn, hfar⟩]
    rfl

lemma ofFile_told_or (hname : path.endsWith ".json") (bytes : List UInt8) :
    Told path (ofFile path bytes) ∨ ∃ e, Overlooked bytes e := by
  rw [ofFile_eq hname]
  cases hdecode : Text.Utf8.decode bytes with
  | error => exact .inr ⟨_, .encoding hdecode⟩
  | ok text =>
    change Told path (ofJson _ _) ∨ _
    cases hread : Json.read (Text.unifyNewlines text.toList) with
    | error e =>
      cases e with
      | numeral => exact .inr ⟨_, .numeral hdecode hread⟩
      | malformed =>
        rw [ofJson, jsonEntries, hread]
        exact .inl (.inr ⟨_, rfl⟩)
    | ok v =>
      cases v with
      | dict entries =>
        rw [ofJson_dict hread]
        cases hdict : ofDict entries path with
        | ok => exact .inl (.inl ⟨_, rfl, rfl⟩)
        | error =>
          rcases ofDict_error hdict with rfl | ⟨message, rfl⟩
          · obtain ⟨⟨_, hothers⟩, _, hn, hfar⟩ := ofDict_tooLarge.mp hdict
            exact .inr ⟨_, .interval hdecode hread hothers hn hfar⟩
          · exact .inl (.inr ⟨message, rfl⟩)
      | null =>
        rw [ofJson, jsonEntries, hread]
        exact .inl (.inl ⟨_, rfl, rfl⟩)
      | _ =>
        rw [ofJson, jsonEntries, hread]
        exact .inl (.inr ⟨_, rfl⟩)

/-- Faults of a settings file in JSON are blamed on the file, apart from three. Whatever stands at a
path with such a name, loading it changes nothing and either gives settings with the path as their
source or fails with a diagnostic of the settings that names the path, unless a fault of the bytes
is overlooked. Just then that fault comes out. -/
theorem load_json (s : Memory) {path : String} (hname : path.endsWith ".json") (start : String) :
    ∃ r, (load Host.memory (some path) start).run s = (r, s) ∧
      (Told path r ∨ ∃ bytes e, s.disk.read path = .ok bytes ∧ Overlooked bytes e) ∧
      ∀ bytes e, s.disk.read path = .ok bytes → Overlooked bytes e → r = .error e := by
  simp only [load, loadFile, Host.memory, Memory.look, bind_assoc, StateT.run_bind, StateT.run_get,
    pure_bind]
  cases s.disk.read path with
  | error => exact ⟨_, rfl, .inl (.inr ⟨_, rfl⟩), nofun⟩
  | ok bytes =>
    refine ⟨ofFile path bytes, rfl, ?_, ?_⟩
    · exact (ofFile_told_or hname bytes).imp_right fun ⟨e, he⟩ => ⟨bytes, e, rfl, he⟩
    · rintro _ e ⟨⟩ he
      exact ofFile_of_overlooked hname he

/-- A brace and a byte that starts no character. -/
theorem load_json_encoding :
    let s : Memory := { disk := { root := .folder [("rc.json", .file [0x7b, 0xff] 0)] } }
    "rc.json".endsWith ".json" ∧ ∃ fault : Text.Utf8.Fault, fault.offset = 1 ∧
      (load Host.memory (some "rc.json") ".").run s = (.error (.encoding fault), s) := by
  intro s
  have hname : "rc.json".endsWith ".json" := by decide +kernel
  obtain ⟨r, hrun, -, hoverlooked⟩ := load_json s hname "."
  have hr := hoverlooked [0x7b, 0xff] _ (by decide +kernel) (.encoding rfl)
  exact ⟨hname, _, rfl, hrun.trans (by rw [hr])⟩

end Settings

end UiScript
