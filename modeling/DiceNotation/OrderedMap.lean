/-! # Maps that remember insertion order

An `OrderedMap α` is a finite map from names to values of type `α` that keeps its names in
the order in which they first came in.  Overwriting a name keeps its place, a new name goes
last, and no name occurs twice (`nodup`, carried as a proof field).

Attributes of tree nodes, tables of functions and the members of a JSON object are all
such maps.  The lemmas say what each operation does to the list of names and to look-up:

* `keys_insert`   the names stay in place, a new one is appended
* `get?_insert`   the inserted name finds the new value, every other name what it found before
* `keys_erase`    the erased name is gone, the others keep their order
* `get?_erase`    the erased name finds nothing, every other name what it found before
* `keys_merge`    the names stay in place, and the new ones come behind them in their own order
* `get?_merge`    what is found in the second map comes before what is found in the first one

A map is determined by its names in their order and by what is found under them
(`ext_of_lookup`), so the laws of merging follow from the last two lemmas. -/

namespace DiceNotation

/-- A finite map from names to values, in order of first insertion. -/
structure OrderedMap (α : Type) where
  /-- The names with their values, oldest first. -/
  entries : List (String × α)
  /-- No name occurs twice. -/
  nodup : (entries.map Prod.fst).Nodup

namespace OrderedMap

variable {α : Type}

/-! ## Entry lists -/

/-- Overwrite the value of `key` in place, or append the pair if the name is new. -/
def insertEntry (key : String) (value : α) : List (String × α) → List (String × α)
  | [] => [(key, value)]
  | entry :: rest =>
    if entry.1 = key then (key, value) :: rest else entry :: insertEntry key value rest

/-- Inserting overwrites a name in its place, and puts a new name last. -/
theorem map_fst_insertEntry (key : String) (value : α) (entries : List (String × α)) :
    (insertEntry key value entries).map Prod.fst =
      if key ∈ entries.map Prod.fst then entries.map Prod.fst
      else entries.map Prod.fst ++ [key] := by
  induction entries with
  | nil => simp [insertEntry]
  | cons entry rest ih =>
    by_cases h : entry.1 = key
    · simp [insertEntry, h]
    · have h' : ¬ key = entry.1 := fun e => h e.symm
      simp only [insertEntry, h, if_false, List.map_cons, ih, List.mem_cons, h', false_or]
      split <;> simp

/-- Inserting makes no name occur twice. -/
theorem nodup_insertEntry (key : String) (value : α) {entries : List (String × α)}
    (h : (entries.map Prod.fst).Nodup) :
    ((insertEntry key value entries).map Prod.fst).Nodup := by
  rw [map_fst_insertEntry]
  split
  · exact h
  · next fresh =>
    rw [List.nodup_append]
    refine ⟨h, by simp, ?_⟩
    intro a ha b hb
    simp only [List.mem_singleton] at hb
    subst hb
    exact fun e => fresh (e ▸ ha)

/-- Only the look-up of the inserted name is changed by inserting. -/
theorem lookup_insertEntry (key name : String) (value : α) (entries : List (String × α)) :
    (insertEntry key value entries).lookup name =
      if name = key then some value else entries.lookup name := by
  induction entries with
  | nil =>
    by_cases h : name = key <;> simp [insertEntry, List.lookup_cons, h, beq_eq_false_iff_ne.mpr]
  | cons entry rest ih =>
    obtain ⟨k, v⟩ := entry
    -- Either the value is replaced here, or the insertion goes on behind this entry.
    by_cases hk : k = key
    · subst hk
      by_cases hn : name = k
      · simp [insertEntry, hn]
      · have : (name == k) = false := by simp [hn]
        simp [insertEntry, List.lookup_cons, hn, this]
    · by_cases hn : name = k
      · subst hn
        simp [insertEntry, hk]
      · have : (name == k) = false := by simp [hn]
        simp [insertEntry, List.lookup_cons, hk, this, ih]

/-- Only the look-up of the erased name is changed by erasing. -/
theorem lookup_eraseEntry (key name : String) (entries : List (String × α)) :
    (entries.filter (·.1 ≠ key)).lookup name =
      if name = key then none else entries.lookup name := by
  induction entries with
  | nil => simp
  | cons entry rest ih =>
    obtain ⟨k, v⟩ := entry
    -- The entry goes if it has the key; what is then looked up under the key is not found behind
    -- it.
    by_cases hk : k = key
    · rw [List.filter_cons_of_neg (by simp [hk]), ih]
      by_cases hn : name = key
      · simp [hn]
      · have : (name == k) = false := by simp [hk, hn]
        simp [hn, List.lookup_cons, this]
    · rw [List.filter_cons_of_pos (by simp [hk])]
      by_cases hn : name = k
      · subst hn
        simp [hk]
      · have : (name == k) = false := by simp [hn]
        simp only [List.lookup_cons, this, ih]

/-! ## The map -/

/-- The map without names. -/
def empty : OrderedMap α := ⟨[], by simp⟩

instance : Inhabited (OrderedMap α) := ⟨empty⟩

/-- The names, oldest first. -/
def keys (m : OrderedMap α) : List String := m.entries.map Prod.fst

/-- The number of names. -/
def size (m : OrderedMap α) : Nat := m.entries.length

/-- Whether the map has no names. -/
def isEmpty (m : OrderedMap α) : Bool := m.entries.isEmpty

/-- The value of a name, if it has one. -/
def get? (m : OrderedMap α) (key : String) : Option α := m.entries.lookup key

/-- Whether the name has a value. -/
def contains (m : OrderedMap α) (key : String) : Bool := (m.get? key).isSome

/-- Give a name a value: in place if the name is known, else at the end. -/
def insert (m : OrderedMap α) (key : String) (value : α) : OrderedMap α :=
  ⟨insertEntry key value m.entries, nodup_insertEntry key value m.nodup⟩

/-- Forget a name; nothing happens if it is not there. -/
def erase (m : OrderedMap α) (key : String) : OrderedMap α :=
  ⟨m.entries.filter (·.1 ≠ key),
    m.nodup.sublist (List.filter_sublist.map Prod.fst)⟩

/-- Insert all entries of `overrides`, in their order, into `m`. -/
def merge (m overrides : OrderedMap α) : OrderedMap α :=
  overrides.entries.foldl (fun acc entry => acc.insert entry.1 entry.2) m

/-- The map that results from inserting the pairs from left to right. -/
def ofList (entries : List (String × α)) : OrderedMap α :=
  entries.foldl (fun acc entry => acc.insert entry.1 entry.2) empty

/-- Whether two maps have the same names with values related by `same`, in any order. -/
def agrees (same : α → α → Bool) (m other : OrderedMap α) : Bool :=
  m.size == other.size &&
    m.entries.all fun entry =>
      match other.get? entry.1 with
      | some value => same entry.2 value
      | none => false

@[simp] theorem keys_empty : (empty : OrderedMap α).keys = [] := rfl

@[simp] theorem get?_empty (key : String) : (empty : OrderedMap α).get? key = none := rfl

/-- The names of a map keep their order when a value is inserted, and a new name comes last. -/
theorem keys_insert (m : OrderedMap α) (key : String) (value : α) :
    (m.insert key value).keys = if key ∈ m.keys then m.keys else m.keys ++ [key] :=
  map_fst_insertEntry key value m.entries

/-- The inserted name finds its value, and every other name what it found before. -/
@[simp] theorem get?_insert (m : OrderedMap α) (key name : String) (value : α) :
    (m.insert key value).get? name = if name = key then some value else m.get? name :=
  lookup_insertEntry key name value m.entries

/-- The names that are left keep their order when one is erased. -/
theorem keys_erase (m : OrderedMap α) (key : String) :
    (m.erase key).keys = m.keys.filter (· ≠ key) := by
  simp only [keys, erase, List.filter_map]
  rfl

/-- The erased name finds nothing, and every other name what it found before. -/
@[simp] theorem get?_erase (m : OrderedMap α) (key name : String) :
    (m.erase key).get? name = if name = key then none else m.get? name :=
  lookup_eraseEntry key name m.entries

/-! ## Names and what is found under them -/

/-- A look-up finds nothing if and only if there is no such name. -/
theorem lookup_eq_none_iff {entries : List (String × α)} {key : String} :
    entries.lookup key = none ↔ key ∉ entries.map Prod.fst := by
  rw [List.lookup_eq_none_iff, List.mem_map]
  constructor
  · rintro other ⟨entry, inside, rfl⟩
    exact bne_iff_ne.mp (other entry inside) rfl
  · intro absent entry inside
    rw [bne_iff_ne]
    exact fun same => absent ⟨entry, inside, same.symm⟩

/-- Nothing is found exactly under the names that the map does not have. -/
theorem get?_eq_none_iff {m : OrderedMap α} {key : String} : m.get? key = none ↔ key ∉ m.keys :=
  lookup_eq_none_iff

/-- Lists of entries with the same names in the same order are equal if the same is found in
    them. -/
theorem entries_eq_of_lookup {l l' : List (String × α)} (nodup : (l.map Prod.fst).Nodup)
    (names : l.map Prod.fst = l'.map Prod.fst) (found : ∀ key, l.lookup key = l'.lookup key) :
    l = l' := by
  induction l generalizing l' with
  | nil => exact (List.map_eq_nil_iff.mp names.symm).symm
  | cons entry rest ih =>
    obtain ⟨key, value⟩ := entry
    obtain ⟨⟨key', value'⟩, rest', rfl, same, behind⟩ := List.map_eq_cons_iff.mp names.symm
    obtain rfl : key' = key := same
    obtain ⟨fresh, distinct⟩ := List.nodup_cons.mp nodup
    obtain rfl : value = value' := by simpa using found key'
    congr 1
    refine ih distinct behind.symm fun name => ?_
    by_cases here : name = key'
    · -- The name of the first entry is found in neither rest.
      rw [here, lookup_eq_none_iff.mpr fresh, lookup_eq_none_iff.mpr (behind ▸ fresh)]
    · have other := found name
      have differs : (name == key') = false := beq_eq_false_iff_ne.mpr here
      rwa [List.lookup_cons, List.lookup_cons, differs] at other

/-- A map is determined by its names in their order and what is found under them. -/
theorem ext_of_lookup {m m' : OrderedMap α} (names : m.keys = m'.keys)
    (found : ∀ key, m.get? key = m'.get? key) : m = m' := by
  obtain ⟨entries, nodup⟩ := m
  obtain ⟨entries', _⟩ := m'
  obtain rfl := entries_eq_of_lookup nodup names found
  rfl

/-- Of two values that are inserted under one name, the last one counts. -/
theorem insert_insert (m : OrderedMap α) (key : String) (value last : α) :
    (m.insert key value).insert key last = m.insert key last := by
  apply ext_of_lookup
  · simp only [keys_insert]
    split <;> simp_all
  · intro name
    simp only [get?_insert]
    split <;> rfl

/-- Storing what is stored changes nothing. -/
theorem insert_get? {m : OrderedMap α} {key : String} {value : α}
    (stored : m.get? key = some value) : m.insert key value = m := by
  -- The key is known, so its place is kept, and the value is the one that is there.
  apply ext_of_lookup
  · have known : key ∈ m.keys := by
      apply Decidable.byContradiction
      intro absent
      rw [get?_eq_none_iff.mpr absent] at stored
      cases stored
    rw [keys_insert, if_pos known]
  · intro name
    rw [get?_insert]
    split
    · next here => rw [here, stored]
    · rfl

/-- What is found after entries were inserted is one of them, or it was found before. -/
theorem mem_or_get?_of_foldl_insert {m : OrderedMap α} {entries : List (String × α)}
    {key : String} {value : α}
    (h : (entries.foldl (fun acc entry => acc.insert entry.1 entry.2) m).get? key = some value) :
    (key, value) ∈ entries ∨ m.get? key = some value := by
  induction entries generalizing m with
  | nil => exact .inr h
  | cons entry rest ih =>
    rcases ih h with later | found
    · exact .inl (List.mem_cons_of_mem _ later)
    · rw [get?_insert] at found
      split at found
      · next here =>
        cases found
        exact .inl (here ▸ List.mem_cons_self)
      · exact .inr found

/-- What is found in a map that was made of a list stands in the list. -/
theorem mem_of_get?_ofList {entries : List (String × α)} {key : String} {value : α}
    (h : (ofList entries).get? key = some value) : (key, value) ∈ entries :=
  (mem_or_get?_of_foldl_insert h).resolve_right nofun

/-! ## Merging -/

/-- The names of inserted entries that are new come last, in their order. -/
theorem keys_foldl_insert (m : OrderedMap α) {entries : List (String × α)}
    (nodup : (entries.map Prod.fst).Nodup) :
    (entries.foldl (fun acc entry => acc.insert entry.1 entry.2) m).keys =
      m.keys ++ (entries.map Prod.fst).filter (· ∉ m.keys) := by
  induction entries generalizing m with
  | nil => simp
  | cons entry rest ih =>
    obtain ⟨fresh, distinct⟩ := List.nodup_cons.mp nodup
    rw [List.foldl_cons, ih _ distinct, keys_insert, List.map_cons]
    by_cases known : entry.1 ∈ m.keys
    · rw [if_pos known, List.filter_cons_of_neg (by simp [known])]
    · rw [if_neg known, List.filter_cons_of_pos (by simp [known]), List.append_assoc,
        List.singleton_append]
      -- The name is put in once, so what comes behind it is new as it was before.
      congr 2
      refine List.filter_congr fun name inside => ?_
      have other : name ≠ entry.1 := fun equal => fresh (equal ▸ inside)
      simp [other]

/-- What was inserted last under a name is found. -/
theorem get?_foldl_insert (m : OrderedMap α) {entries : List (String × α)}
    (nodup : (entries.map Prod.fst).Nodup) (key : String) :
    (entries.foldl (fun acc entry => acc.insert entry.1 entry.2) m).get? key =
      (entries.lookup key).or (m.get? key) := by
  induction entries generalizing m with
  | nil => simp
  | cons entry rest ih =>
    obtain ⟨name, value⟩ := entry
    obtain ⟨fresh, distinct⟩ := List.nodup_cons.mp nodup
    rw [List.foldl_cons, ih _ distinct, get?_insert, List.lookup_cons]
    by_cases here : key = name
    · subst here
      simp [lookup_eq_none_iff.mpr fresh]
    · simp [here, beq_eq_false_iff_ne.mpr here]

/-- The names of the first map come first, and behind them those that only the second one has. -/
theorem keys_merge (m overrides : OrderedMap α) :
    (m.merge overrides).keys = m.keys ++ overrides.keys.filter (· ∉ m.keys) :=
  keys_foldl_insert m overrides.nodup

/-- What is found in the second map comes before what is found in the first one. -/
@[simp] theorem get?_merge (m overrides : OrderedMap α) (key : String) :
    (m.merge overrides).get? key = (overrides.get? key).or (m.get? key) :=
  get?_foldl_insert m overrides.nodup key

/-- A merged map has the names of both maps. -/
theorem mem_keys_merge {m overrides : OrderedMap α} {key : String} :
    key ∈ (m.merge overrides).keys ↔ key ∈ m.keys ∨ key ∈ overrides.keys := by
  have absent : key ∉ (m.merge overrides).keys ↔ key ∉ overrides.keys ∧ key ∉ m.keys := by
    rw [← get?_eq_none_iff, get?_merge, Option.or_eq_none_iff, get?_eq_none_iff, get?_eq_none_iff]
  rw [← Decidable.not_iff_not, absent, not_or, and_comm]

/-- The empty map overrides nothing. -/
theorem merge_empty (m : OrderedMap α) : m.merge empty = m := rfl

/-- What overrides the empty map is all that is left. -/
theorem empty_merge (m : OrderedMap α) : empty.merge m = m := by
  apply ext_of_lookup
  · rw [keys_merge]
    simp
  · simp

/-- Merging is associative, also in the order of the names. -/
theorem merge_assoc (a b c : OrderedMap α) : (a.merge b).merge c = a.merge (b.merge c) := by
  apply ext_of_lookup
  case names =>
    have new : c.keys.filter (· ∉ (a.merge b).keys) =
        (c.keys.filter (· ∉ b.keys)).filter (· ∉ a.keys) := by
      rw [List.filter_filter]
      exact List.filter_congr fun key _ => by simp [mem_keys_merge]
    rw [keys_merge, new, keys_merge, keys_merge, keys_merge, List.filter_append, List.append_assoc]
  case found =>
    intro key
    simp [Option.or_assoc]

/-- Merges one after the other are one merge. -/
theorem foldl_merge (m : OrderedMap α) (tables : List (OrderedMap α)) :
    tables.foldl merge m = m.merge (tables.foldl merge empty) := by
  induction tables generalizing m with
  | nil => rfl
  | cons table tables ih =>
    rw [List.foldl_cons, List.foldl_cons, ih, ih (empty.merge table), empty_merge, merge_assoc]

end OrderedMap

end DiceNotation
