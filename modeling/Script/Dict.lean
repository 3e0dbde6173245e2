/-!
# Insertion-ordered dictionaries

A dictionary from texts to values that remembers the order in which its keys were first written.
Writing to a key that is present changes the value and keeps the place.  Scopes and the maps of a
program are both dictionaries, and their order can be observed.

## Main statements

* `Dict.get?_insert`: a key reads back the last value written to it.
* `Dict.keys_insert`: a write appends the key if it is new, and keeps the keys otherwise.
-/

namespace Script

namespace Dict

variable {α : Type}

/-- The value at a key in a list of entries. -/
def lookup (key : String) : List (String × α) → Option α
  | [] => none
  | (k, v) :: rest => if k = key then some v else lookup key rest

/-- A list of entries after a write: the value at the key is replaced, or a new entry is put at the
end. -/
def write (key : String) (value : α) : List (String × α) → List (String × α)
  | [] => [(key, value)]
  | (k, v) :: rest => if k = key then (k, value) :: rest else (k, v) :: write key value rest

theorem lookup_eq_none_iff {key : String} {entries : List (String × α)} :
    lookup key entries = none ↔ key ∉ entries.map Prod.fst := by
  induction entries with
  | nil => simp [lookup]
  | cons e rest ih =>
    obtain ⟨k, v⟩ := e
    by_cases h : k = key
    · simp [lookup, h]
    · simp [lookup, h, ih, Ne.symm h]

theorem map_fst_write (key : String) (value : α) (entries : List (String × α)) :
    (write key value entries).map Prod.fst =
      if key ∈ entries.map Prod.fst then entries.map Prod.fst
      else entries.map Prod.fst ++ [key] := by
  induction entries with
  | nil => simp [write]
  | cons e rest ih =>
    obtain ⟨k, v⟩ := e
    by_cases h : k = key
    · simp [write, h]
    · simp only [write, h, if_false, List.map_cons, ih, List.mem_cons, Ne.symm h, false_or]
      split <;> simp

theorem nodup_write {key : String} {value : α} {entries : List (String × α)}
    (h : (entries.map Prod.fst).Nodup) : ((write key value entries).map Prod.fst).Nodup := by
  rw [map_fst_write]
  split
  · exact h
  · rename_i hkey
    rw [List.nodup_append]
    refine ⟨h, by simp, ?_⟩
    intro a ha b hb hab
    rw [List.mem_singleton] at hb
    exact hkey (hb ▸ hab ▸ ha)

theorem lookup_write (key other : String) (value : α) (entries : List (String × α)) :
    lookup other (write key value entries) =
      if other = key then some value else lookup other entries := by
  induction entries with
  | nil => simp [write, lookup, eq_comm]
  | cons e rest ih =>
    obtain ⟨k, v⟩ := e
    by_cases h : k = key
    · subst h
      by_cases ho : k = other
      · simp [write, lookup, ho]
      · simp [write, lookup, ho, Ne.symm ho]
    · by_cases ho : k = other
      · subst ho
        simp [write, lookup, h]
      · simp [write, lookup, h, ho, ih]

end Dict

/-- A dictionary.  No key occurs twice among its entries. -/
structure Dict (α : Type) where
  entries : List (String × α)
  nodup : (entries.map Prod.fst).Nodup

namespace Dict

variable {α : Type}

/-- The dictionary without entries. -/
def empty : Dict α := ⟨[], List.nodup_nil⟩

/-- The keys, in the order of their first writes. -/
def keys (d : Dict α) : List String := d.entries.map Prod.fst

/-- The number of entries. -/
def size (d : Dict α) : Nat := d.entries.length

/-- The value at a key. -/
def get? (d : Dict α) (key : String) : Option α := lookup key d.entries

/-- Whether a key has a value. -/
def contains (d : Dict α) (key : String) : Bool := (d.get? key).isSome

/-- The dictionary after a write. -/
def insert (d : Dict α) (key : String) (value : α) : Dict α :=
  ⟨write key value d.entries, nodup_write d.nodup⟩

/-- The dictionary after the given writes, in turn. -/
def insertAll (d : Dict α) (writes : List (String × α)) : Dict α :=
  writes.foldl (fun d w => d.insert w.1 w.2) d

theorem ext_entries {a b : Dict α} (h : a.entries = b.entries) : a = b := by
  cases a
  cases b
  cases h
  rfl

@[simp] theorem get?_empty (key : String) : (empty : Dict α).get? key = none := rfl

@[simp] theorem keys_empty : (empty : Dict α).keys = [] := rfl

theorem keys_nodup (d : Dict α) : d.keys.Nodup := d.nodup

theorem length_keys (d : Dict α) : d.keys.length = d.size := by simp [keys, size]

theorem get?_insert (d : Dict α) (key other : String) (value : α) :
    (d.insert key value).get? other = if other = key then some value else d.get? other :=
  lookup_write key other value d.entries

theorem get?_insert_self (d : Dict α) (key : String) (value : α) :
    (d.insert key value).get? key = some value := by
  rw [get?_insert, if_pos rfl]

theorem get?_insert_of_ne (d : Dict α) {key other : String} (value : α) (h : other ≠ key) :
    (d.insert key value).get? other = d.get? other := by
  rw [get?_insert, if_neg h]

theorem keys_insert (d : Dict α) (key : String) (value : α) :
    (d.insert key value).keys = if key ∈ d.keys then d.keys else d.keys ++ [key] :=
  map_fst_write key value d.entries

theorem get?_eq_none_iff {d : Dict α} {key : String} : d.get? key = none ↔ key ∉ d.keys :=
  lookup_eq_none_iff

theorem mem_of_get? {d : Dict α} {key : String} {value : α} (h : d.get? key = some value) :
    (key, value) ∈ d.entries := by
  unfold get? at h
  generalize d.entries = entries at h
  induction entries with
  | nil => cases h
  | cons e rest ih =>
    unfold lookup at h
    split at h
    · next heq =>
      cases h
      cases heq
      exact .head _
    · exact .tail _ (ih h)

/-- An entry is found under its key. -/
theorem get?_of_mem {d : Dict α} {key : String} {value : α}
    (h : (key, value) ∈ d.entries) : d.get? key = some value := by
  obtain ⟨entries, hnodup⟩ := d
  unfold get?
  dsimp only at h ⊢
  induction entries with
  | nil => cases h
  | cons e entries ih =>
    obtain ⟨k, v⟩ := e
    rw [List.map_cons, List.nodup_cons] at hnodup
    rcases List.mem_cons.mp h with heq | h
    · cases heq
      rw [lookup, if_pos rfl]
    · have hne : k ≠ key := by
        rintro rfl
        exact hnodup.1 (List.mem_map.mpr ⟨_, h, rfl⟩)
      rw [lookup, if_neg hne]
      exact ih hnodup.2 h

theorem contains_iff {d : Dict α} {key : String} : d.contains key = true ↔ key ∈ d.keys := by
  rw [contains, Option.isSome_iff_ne_none, ne_eq, get?_eq_none_iff, Decidable.not_not]

end Dict

end Script
