/-!
# Insertion-ordered tables

A `Table` maps keys to values and remembers the order in which keys first came in: writing to a key
that is present changes its value and not its place, and erasing a key closes the gap. The keys are
distinct by the type itself. `get?_insert`, `keys_insert`, `get?_erase`, `keys_erase`,
`get?_modify` and `keys_modify` say what the operations do to look-ups and to the order.
-/

namespace NameAtlas

/-- A finite map whose keys are listed in the order of their first insertion. -/
structure Table (α : Type) (β : Type) where
  /-- The keys with their values, in order. -/
  entries : List (α × β)
  /-- No key is listed twice. -/
  nodup_keys : (entries.map Prod.fst).Nodup

namespace Table

variable {α β γ : Type}

/-- The table without keys. -/
def empty : Table α β := ⟨[], List.nodup_nil⟩

instance : Inhabited (Table α β) := ⟨empty⟩

instance : EmptyCollection (Table α β) := ⟨empty⟩

/-- The keys, oldest first. -/
def keys (t : Table α β) : List α := t.entries.map Prod.fst

/-- The values, in the order of their keys. -/
def values (t : Table α β) : List β := t.entries.map Prod.snd

/-- How many keys there are. -/
def size (t : Table α β) : Nat := t.entries.length

variable [DecidableEq α]

/-- The value of the first entry with key `k`. -/
def lookup (k : α) : List (α × β) → Option β
  | [] => none
  | (k', v) :: rest => if k = k' then some v else lookup k rest

/-- The value of a key, if it has one. -/
def get? (t : Table α β) (k : α) : Option β := lookup k t.entries

/-- True for the keys that have a value. -/
def contains (t : Table α β) (k : α) : Bool := (t.get? k).isSome

/-- Writes a value into a list of entries: over the first one with that key, else at the end. -/
def insertEntry (k : α) (v : β) : List (α × β) → List (α × β)
  | [] => [(k, v)]
  | (k', v') :: rest => if k = k' then (k, v) :: rest else (k', v') :: insertEntry k v rest

/-- An entry that is new comes last, and one that is known leaves the keys as they are. -/
theorem keys_insertEntry (k : α) (v : β) (es : List (α × β)) :
    (insertEntry k v es).map Prod.fst =
      if k ∈ es.map Prod.fst then es.map Prod.fst else es.map Prod.fst ++ [k] := by
  induction es with
  | nil => rfl
  | cons e rest ih =>
    obtain ⟨k', v'⟩ := e
    by_cases h : k = k'
    · subst h; simp [insertEntry]
    · by_cases h' : k ∈ rest.map Prod.fst <;> simp [insertEntry, h, h', ih]

/-- Inserting never makes a key occur twice. -/
theorem nodup_insertEntry (k : α) (v : β) {es : List (α × β)}
    (h : (es.map Prod.fst).Nodup) : ((insertEntry k v es).map Prod.fst).Nodup := by
  rw [keys_insertEntry]
  split
  · exact h
  · rw [List.nodup_append]
    exact ⟨h, by simp, by grind⟩

/-- Sets the value of a key. A key that is present keeps its place, a new one goes last. -/
def insert (t : Table α β) (k : α) (v : β) : Table α β :=
  ⟨insertEntry k v t.entries, nodup_insertEntry k v t.nodup_keys⟩

/-- Removes a key and keeps the order of the others. -/
def erase (t : Table α β) (k : α) : Table α β :=
  ⟨t.entries.filter fun e => e.1 ≠ k,
    (List.filter_sublist.map Prod.fst).nodup t.nodup_keys⟩

/-- Changes the value of a key in place, if the key is present. -/
def modify (t : Table α β) (k : α) (f : β → β) : Table α β :=
  match t.get? k with
  | some v => t.insert k (f v)
  | none => t

/-- Builds a table by writing entries from left to right. -/
def ofList (es : List (α × β)) : Table α β := es.foldl (fun t e => t.insert e.1 e.2) empty

/-- Nothing is found in the empty table. -/
@[simp] theorem get?_empty (k : α) : (empty : Table α β).get? k = none := rfl

/-- A look-up behind an insertion gives what was inserted under its own key, and under other keys
what was there. -/
theorem lookup_insertEntry (k k' : α) (v : β) (es : List (α × β)) :
    lookup k' (insertEntry k v es) = if k' = k then some v else lookup k' es := by
  induction es with
  | nil => rfl
  | cons e rest ih => grind [insertEntry, lookup]

/-- A look-up after a write finds the written value at its key and is unchanged elsewhere. -/
theorem get?_insert (t : Table α β) (k k' : α) (v : β) :
    (t.insert k v).get? k' = if k' = k then some v else t.get? k' :=
  lookup_insertEntry k k' v t.entries

/-- A look-up succeeds exactly for the keys of the entries. -/
theorem isSome_lookup_iff (k : α) (es : List (α × β)) :
    (lookup k es).isSome = true ↔ k ∈ es.map Prod.fst := by
  induction es with
  | nil => simp [lookup]
  | cons e rest ih => grind [lookup]

/-- The keys are exactly what a look-up finds. -/
theorem mem_keys_iff (t : Table α β) (k : α) : k ∈ t.keys ↔ (t.get? k).isSome = true :=
  (isSome_lookup_iff k t.entries).symm

/-- Under distinct keys a look-up gives a value exactly if the pair is an entry. -/
theorem lookup_eq_some_iff {es : List (α × β)} (h : (es.map Prod.fst).Nodup) (k : α) (v : β) :
    lookup k es = some v ↔ (k, v) ∈ es := by
  induction es with
  | nil => simp [lookup]
  | cons e rest ih =>
    obtain ⟨k', v'⟩ := e
    obtain ⟨hnot, hrest⟩ := List.nodup_cons.1 h
    by_cases hk : k = k'
    · subst hk
      have hmem : (k, v) ∉ rest := fun hmem => hnot (List.mem_map.2 ⟨_, hmem, rfl⟩)
      simp [lookup, hmem, eq_comm]
    · simp [lookup, hk, ih hrest]

/-- A look-up finds the values that the entries list. -/
theorem get?_eq_some_iff (t : Table α β) (k : α) (v : β) :
    t.get? k = some v ↔ (k, v) ∈ t.entries := lookup_eq_some_iff t.nodup_keys k v

/-- A write appends its key to the order exactly when the key is new. -/
theorem keys_insert (t : Table α β) (k : α) (v : β) :
    (t.insert k v).keys = if k ∈ t.keys then t.keys else t.keys ++ [k] :=
  keys_insertEntry k v t.entries

/-- Erasing a key drops it from the order and moves no other. -/
theorem keys_erase (t : Table α β) (k : α) :
    (t.erase k).keys = t.keys.filter fun k' => k' ≠ k := by
  simp [keys, erase, List.filter_map]
  rfl

/-- Behind an erasure the key is gone, and the others are looked up as before. -/
theorem lookup_filter_ne (k k' : α) (es : List (α × β)) :
    lookup k' (es.filter fun e => e.1 ≠ k) = if k' = k then none else lookup k' es := by
  induction es with
  | nil => simp [lookup]
  | cons e rest ih => grind [lookup]

/-- A look-up after an erasure finds nothing at the erased key and is unchanged elsewhere. -/
theorem get?_erase (t : Table α β) (k k' : α) :
    (t.erase k).get? k' = if k' = k then none else t.get? k' :=
  lookup_filter_ne k k' t.entries

/-- A look-up after a change finds the changed value at the key and is unchanged elsewhere. -/
theorem get?_modify (t : Table α β) (k k' : α) (f : β → β) :
    (t.modify k f).get? k' = if k' = k then (t.get? k).map f else t.get? k' := by
  rw [modify]
  cases h : t.get? k with
  | some v => rw [get?_insert]; rfl
  | none =>
    by_cases hk : k' = k
    · rw [if_pos hk, hk, h]; rfl
    · rw [if_neg hk]

/-- A change keeps the keys and their order. -/
theorem keys_modify (t : Table α β) (k : α) (f : β → β) : (t.modify k f).keys = t.keys := by
  rw [modify]
  cases h : t.get? k with
  | some v => rw [keys_insert, if_pos ((t.mem_keys_iff k).2 (by rw [h]; rfl))]
  | none => rfl

/-! ### Views of the values -/

/-- The table with other values at the same keys. -/
def mapValues (t : Table α β) (g : β → γ) : Table α γ :=
  ⟨t.entries.map fun e => (e.1, g e.2), by simpa [Function.comp_def] using t.nodup_keys⟩

/-- Values may be changed before or behind a look-up. -/
theorem lookup_map (k : α) (g : β → γ) (es : List (α × β)) :
    lookup k (es.map fun e => (e.1, g e.2)) = (lookup k es).map g := by
  induction es with
  | nil => rfl
  | cons e rest ih => grind [lookup]

/-- Values may be changed before or behind an insertion. -/
theorem map_insertEntry (k : α) (v : β) (g : β → γ) (es : List (α × β)) :
    (insertEntry k v es).map (fun e => (e.1, g e.2)) =
      insertEntry k (g v) (es.map fun e => (e.1, g e.2)) := by
  induction es with
  | nil => rfl
  | cons e rest ih => grind [insertEntry]

/-- A look-up in a table with changed values gives the changed value. -/
theorem get?_mapValues (t : Table α β) (g : β → γ) (k : α) :
    (t.mapValues g).get? k = (t.get? k).map g :=
  lookup_map k g t.entries

/-- Inserting commutes with a change of all values. -/
theorem mapValues_insert (t : Table α β) (k : α) (v : β) (g : β → γ) :
    (t.insert k v).mapValues g = (t.mapValues g).insert k (g v) := by
  simp only [insert, mapValues, map_insertEntry]

/-- Erasing commutes with a change of all values. -/
theorem mapValues_erase (t : Table α β) (k : α) (g : β → γ) :
    (t.erase k).mapValues g = (t.mapValues g).erase k := by
  simp only [erase, mapValues, List.filter_map]
  rfl

end Table

end NameAtlas
