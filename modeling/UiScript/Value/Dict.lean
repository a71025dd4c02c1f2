/-!
# Dictionaries in insertion order

A dictionary is the list of its entries. A repeated key keeps its first position and takes the last
value.
-/

namespace UiScript

/-- Entries with pairwise different keys, in the order in which the keys were first set. -/
abbrev Dict (α : Type) := List (String × α)

namespace Dict

variable {α : Type}

def get? (d : Dict α) (key : String) : Option α := List.lookup key d

/-- Sets a key; a new key goes to the end. -/
def set (key : String) (value : α) : Dict α → Dict α
  | [] => [(key, value)]
  | (k, v) :: rest => if k == key then (k, value) :: rest else (k, v) :: set key value rest

def ofEntries (entries : List (String × α)) : Dict α :=
  entries.foldl (fun d (k, v) => set k v d) []

def keys (d : Dict α) : List String := d.map Prod.fst

theorem get?_cons (key : String) (entry : String × α) (d : Dict α) :
    get? (entry :: d) key = if key = entry.1 then some entry.2 else get? d key := by
  obtain ⟨k, v⟩ := entry
  by_cases h : key = k
  · simp [get?, h]
  · simp [get?, List.lookup_cons, h, beq_false_of_ne h]

theorem get?_set_self (key : String) (value : α) (d : Dict α) :
    get? (set key value d) key = some value := by
  induction d with
  | nil => simp [set, get?_cons]
  | cons entry d ih =>
    by_cases h : entry.1 = key
    · simp [set, get?_cons, h]
    · simp [set, get?_cons, h, Ne.symm h, ih]

theorem get?_set_of_ne {key other : String} (h : other ≠ key) (value : α) (d : Dict α) :
    get? (set key value d) other = get? d other := by
  induction d with
  | nil => simp [set, get?_cons, h]
  | cons entry d ih =>
    by_cases hkey : entry.1 = key
    · simp [set, get?_cons, hkey, h]
    · simp [set, get?_cons, hkey, ih]

theorem set_of_notMem {key : String} {d : Dict α} (h : key ∉ d.keys) (value : α) :
    set key value d = d ++ [(key, value)] := by
  induction d with
  | nil => rfl
  | cons entry d ih =>
    obtain ⟨hne, hrest⟩ := not_or.mp (mt List.mem_cons.mpr h)
    simp [set, Ne.symm hne, ih hrest]

theorem notMem_keys_of_nodup {d entries : Dict α} {entry : String × α}
    (h : (keys (d ++ entry :: entries)).Nodup) : entry.1 ∉ keys d := by
  intro hmem
  rw [keys, List.map_append] at h
  exact (List.nodup_append.mp h).2.2 _ hmem _ List.mem_cons_self rfl

/-- Entries with different keys are a dictionary as they are. -/
theorem ofEntries_of_nodup {entries : List (String × α)} (h : (keys entries).Nodup) :
    ofEntries entries = entries := by
  have hfold (d : Dict α) (hkeys : (keys (d ++ entries)).Nodup) :
      entries.foldl (fun d entry => set entry.1 entry.2 d) d = d ++ entries := by
    induction entries generalizing d with
    | nil => simp
    | cons entry entries ih =>
      have hset := set_of_notMem (notMem_keys_of_nodup hkeys) entry.2
      have hsplit : d ++ entry :: entries = d ++ [entry] ++ entries := by simp
      rw [hsplit] at hkeys ⊢
      rw [List.foldl_cons, hset]
      exact ih (List.nodup_cons.mp h).2 _ hkeys
  exact hfold [] h

end Dict

end UiScript
