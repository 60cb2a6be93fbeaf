/-!
# Tables

A `Table` maps texts to values and keeps the order in which the keys were first put. No key occurs
twice, and that is part of the type.

* `Table.get?`: the value of a key
* `Table.put`: gives a key a value; a key that is there keeps its place
* `Table.ofPairs`, `Table.merge`: puts one after the other, so that the last value of a key counts
-/

namespace Transplant

/-- Values by key, in order of first insertion. -/
structure Table (α : Type) where
  entries : List (String × α)
  distinct : (entries.map (·.1)).Nodup
deriving DecidableEq

namespace Table

variable {α : Type}

/-- The table without keys. -/
def empty : Table α := ⟨[], by simp⟩

instance : Inhabited (Table α) := ⟨empty⟩

instance : EmptyCollection (Table α) := ⟨empty⟩

/-- The keys in order. -/
def keys (t : Table α) : List String := t.entries.map (·.1)

/-- The number of keys. -/
def size (t : Table α) : Nat := t.entries.length

/-- Whether the table has no keys. -/
def isEmpty (t : Table α) : Bool := t.entries.isEmpty

/-- The value of a key. -/
def get? (t : Table α) (key : String) : Option α := t.entries.lookup key

/-- Whether the key has a value. -/
def contains (t : Table α) (key : String) : Bool := t.keys.contains key

/-- The entries in which `key` has got the value `value`. -/
def putEntry (key : String) (value : α) : List (String × α) → List (String × α)
  | [] => [(key, value)]
  | e :: rest => if e.1 = key then (key, value) :: rest else e :: putEntry key value rest

theorem mem_keys_putEntry {key : String} {value : α} {l : List (String × α)} {k : String} :
    k ∈ (putEntry key value l).map (·.1) ↔ k = key ∨ k ∈ l.map (·.1) := by
  induction l with
  | nil => simp [putEntry]
  | cons e rest ih =>
    unfold putEntry
    split
    · rename_i h
      subst h
      simp
    · rw [List.map_cons, List.mem_cons, ih, List.map_cons, List.mem_cons]
      exact or_left_comm

theorem nodup_keys_putEntry (key : String) (value : α) {l : List (String × α)}
    (h : (l.map (·.1)).Nodup) : ((putEntry key value l).map (·.1)).Nodup := by
  induction l with
  | nil => simp [putEntry]
  | cons e rest ih =>
    rw [List.map_cons, List.nodup_cons] at h
    unfold putEntry
    split
    · rename_i he
      subst he
      simpa using h
    · rename_i he
      rw [List.map_cons, List.nodup_cons, mem_keys_putEntry]
      exact ⟨fun hor => hor.elim he h.1, ih h.2⟩

/-- The table in which `key` has the value `value`. -/
def put (t : Table α) (key : String) (value : α) : Table α :=
  ⟨putEntry key value t.entries, nodup_keys_putEntry key value t.distinct⟩

/-- The table of some pairs; of two pairs with one key the later counts. -/
def ofPairs (pairs : List (String × α)) : Table α :=
  pairs.foldl (fun t p => t.put p.1 p.2) empty

/-- The table `t` with the values of `u` put over its own. -/
def merge (t u : Table α) : Table α := u.entries.foldl (fun t p => t.put p.1 p.2) t

theorem lookup_putEntry (key : String) (value : α) (l : List (String × α)) (k : String) :
    (putEntry key value l).lookup k = if k = key then some value else l.lookup k := by
  induction l with
  | nil =>
    by_cases h : k = key
    · simp [putEntry, h]
    · simp [putEntry, List.lookup_cons, beq_false_of_ne h, h]
  | cons e rest ih =>
    obtain ⟨name, present⟩ := e
    by_cases he : name = key
    · subst he
      by_cases h : k = name
      · simp [putEntry, h]
      · simp [putEntry, List.lookup_cons, beq_false_of_ne h, h]
    · by_cases h : k = name
      · subst h
        simp [putEntry, he]
      · simp [putEntry, List.lookup_cons, beq_false_of_ne h, he, ih]

@[simp] theorem get?_put (t : Table α) (key : String) (value : α) (k : String) :
    (t.put key value).get? k = if k = key then some value else t.get? k :=
  lookup_putEntry key value t.entries k

@[simp] theorem get?_empty (k : String) : (empty : Table α).get? k = none := rfl

theorem mem_keys_put {t : Table α} {key : String} {value : α} {k : String} :
    k ∈ (t.put key value).keys ↔ k = key ∨ k ∈ t.keys :=
  mem_keys_putEntry

theorem get?_foldl_put (pairs : List (String × α)) (t : Table α) (k : String) :
    (pairs.foldl (fun t p => t.put p.1 p.2) t).get? k = (pairs.reverse.lookup k).or (t.get? k) := by
  induction pairs generalizing t with
  | nil => rfl
  | cons p rest ih =>
    obtain ⟨name, value⟩ := p
    rw [List.foldl_cons, ih, get?_put, List.reverse_cons, List.lookup_append, Option.or_assoc]
    congr 1
    by_cases h : k = name
    · simp [h]
    · simp [h, List.lookup_cons, beq_false_of_ne h]

/-- The last pair of a key counts. -/
theorem get?_ofPairs (pairs : List (String × α)) (k : String) :
    (ofPairs pairs).get? k = pairs.reverse.lookup k := by
  rw [ofPairs, get?_foldl_put, get?_empty, Option.or_none]

theorem mem_entries_iff {t : Table α} {k : String} {v : α} :
    (k, v) ∈ t.entries ↔ t.get? k = some v := by
  obtain ⟨entries, hdistinct⟩ := t
  show (k, v) ∈ entries ↔ entries.lookup k = some v
  induction entries with
  | nil => simp
  | cons e rest ih =>
    obtain ⟨name, value⟩ := e
    rw [List.map_cons, List.nodup_cons] at hdistinct
    rw [List.mem_cons, ih hdistinct.2, List.lookup_cons]
    by_cases h : k = name
    · subst h
      have hrest : rest.lookup k ≠ some v := fun hlookup =>
        hdistinct.1 (List.mem_map.mpr ⟨(k, v), (ih hdistinct.2).mpr hlookup, rfl⟩)
      simp [hrest, eq_comm]
    · simp [h, beq_false_of_ne h]

end Table
end Transplant
