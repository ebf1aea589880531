import Emend.Table
import Mathlib.Data.List.Nodup
import Mathlib.Data.List.Perm.Subperm

/-!
# Tables keyed by their values

A table is `KeyedBy` a function when every value stands under its own name. The
operations of `Table` keep that: writing a value under its name, changing values
without their names, and `rekey`, which needs nothing of the table before it. A list of
values put under their names keeps all of them exactly when no two names are the same
(`values_keyed_iff`); else the last of a name is found (`get?_keyed_last`).
-/

set_option autoImplicit false

namespace Emend

variable {α β : Type}

/-! ## Writing to entries -/

theorem mem_upsert {key : String} {value : α} {entries : List (String × α)} {entry : String × α}
    (member : entry ∈ upsert key value entries) : entry = (key, value) ∨ entry ∈ entries := by
  induction entries with
  | nil => simpa [upsert] using member
  | cons first rest ih =>
      obtain ⟨k, v⟩ := first
      rw [upsert] at member
      split at member
      · rename_i same
        subst same
        rcases List.mem_cons.1 member with written | later
        · exact Or.inl written
        · exact Or.inr (List.mem_cons_of_mem _ later)
      · rcases List.mem_cons.1 member with here | later
        · exact Or.inr (here ▸ List.mem_cons_self)
        · exact (ih later).imp_right (List.mem_cons_of_mem _)

theorem mem_upsert_self (key : String) (value : α) (entries : List (String × α)) :
    (key, value) ∈ upsert key value entries := by
  induction entries with
  | nil => simp [upsert]
  | cons first rest ih =>
      obtain ⟨k, v⟩ := first
      rw [upsert]
      split
      · rename_i same
        exact same ▸ List.mem_cons_self
      · exact List.mem_cons_of_mem _ ih

/-- A write to a new key appends. -/
theorem upsert_of_not_mem {key : String} {entries : List (String × α)}
    (absent : key ∉ entries.map Prod.fst) (value : α) :
    upsert key value entries = entries ++ [(key, value)] := by
  induction entries with
  | nil => rfl
  | cons first rest ih =>
      obtain ⟨k, v⟩ := first
      simp only [List.map_cons, List.mem_cons, not_or] at absent
      rw [upsert, if_neg (Ne.symm absent.1), ih absent.2, List.cons_append]

/-- A write to a key that is there changes the entry of that key where it stands. -/
theorem upsert_of_mem {key : String} {entries : List (String × α)}
    (nodup : (entries.map Prod.fst).Nodup) (present : key ∈ entries.map Prod.fst) (value : α) :
    upsert key value entries =
      entries.map fun entry => (entry.1, if entry.1 = key then value else entry.2) := by
  induction entries with
  | nil => cases present
  | cons first rest ih =>
      obtain ⟨k, v⟩ := first
      obtain ⟨fresh, nodup⟩ := List.nodup_cons.1 nodup
      rw [upsert, List.map_cons]
      by_cases here : k = key
      · subst here
        rw [if_pos rfl, if_pos rfl]
        have others : ∀ entry ∈ rest, (entry.1, if entry.1 = k then value else entry.2) = entry := by
          intro entry listed
          have differ : entry.1 ≠ k := by
            rintro rfl
            exact fresh (List.mem_map.2 ⟨entry, listed, rfl⟩)
          rw [if_neg differ]
        rw [List.map_congr_left others, List.map_id']
      · rw [if_neg here, if_neg here]
        rw [ih nodup (Or.resolve_left (List.mem_cons.1 present) (Ne.symm here))]

namespace Table

theorem ext {a b : Table α} (same : a.entries = b.entries) : a = b := by
  cases a
  cases b
  cases same
  rfl

theorem mem_keys {table : Table α} {key : String} :
    key ∈ table.keys ↔ ∃ value, (key, value) ∈ table.entries := by
  simp [keys]

theorem mem_values {table : Table α} {value : α} :
    value ∈ table.values ↔ ∃ key, (key, value) ∈ table.entries := by
  simp [values]

theorem get?_eq_some_iff {table : Table α} {key : String} {value : α} :
    table.get? key = some value ↔ (key, value) ∈ table.entries := by
  obtain ⟨entries, nodup⟩ := table
  simp only [get?, Option.map_eq_some_iff, Prod.exists]
  induction entries with
  | nil => simp
  | cons first rest ih =>
      obtain ⟨k, v⟩ := first
      simp only [List.map_cons, List.nodup_cons] at nodup
      by_cases same : k = key
      · subst same
        have later : (k, value) ∉ rest := fun m => nodup.1 (List.mem_map_of_mem (f := Prod.fst) m)
        simp [later, eq_comm]
      · have ne : ¬ key = k := fun e => same e.symm
        simpa [same, ne] using ih nodup.2

theorem get?_insert (table : Table α) (key other : String) (value : α) :
    (table.insert key value).get? other = if other = key then some value else table.get? other := by
  obtain ⟨entries, nodup⟩ := table
  simp only [get?, entries_insert]
  clear nodup
  induction entries with
  | nil =>
      by_cases same : other = key
      · simp [upsert, same]
      · simp [upsert, same, Ne.symm same]
  | cons first rest ih =>
      obtain ⟨k, v⟩ := first
      rw [upsert]
      by_cases here : k = key
      · subst here
        rw [if_pos rfl]
        by_cases same : k = other
        · simp [same]
        · simp [same, Ne.symm same]
      · rw [if_neg here]
        by_cases same : k = other
        · subst same
          simp [here]
        · simpa [same] using ih

theorem get?_mapValues (f : α → β) (table : Table α) (key : String) :
    (table.mapValues f).get? key = (table.get? key).map f := by
  simp only [get?, mapValues, List.find?_map, Option.map_map]
  rfl

/-- A list of entries in which no key occurs twice is a table as it is. -/
theorem entries_ofList {entries : List (String × α)} (nodup : (entries.map Prod.fst).Nodup) :
    (ofList entries).entries = entries := by
  have step : ∀ (rest : List (String × α)) (table : Table α),
      (table.keys ++ rest.map Prod.fst).Nodup →
        (rest.foldl (fun table entry => table.insert entry.1 entry.2) table).entries =
          table.entries ++ rest := by
    intro rest
    induction rest with
    | nil => simp
    | cons entry rest ih =>
        intro table distinct
        have absent : entry.1 ∉ table.keys := fun member =>
          (List.nodup_append.1 distinct).2.2 _ member _ (List.mem_cons_self ..) rfl
        have keys : (table.insert entry.1 entry.2).keys = table.keys ++ [entry.1] := by
          rw [keys_insert, if_neg absent]
        rw [List.foldl_cons, ih]
        · rw [entries_insert, upsert_of_not_mem absent, List.append_assoc, List.singleton_append]
        · rw [keys, List.append_assoc, List.singleton_append]
          exact distinct
  exact step entries empty nodup

/-- Leaving out a key leaves the other entries alone. -/
theorem get?_ofList_filter (table : Table α) (key other : String) :
    (ofList (table.entries.filter fun entry => entry.1 != key)).get? other =
      if other = key then none else table.get? other := by
  have nodup : ((table.entries.filter fun entry => entry.1 != key).map Prod.fst).Nodup :=
    table.nodup.sublist (List.filter_sublist.map _)
  rw [get?, entries_ofList nodup, get?, List.find?_filter]
  split
  · rename_i same
    subst same
    rw [List.find?_eq_none.2, Option.map_none]
    rintro ⟨k, v⟩ -
    by_cases here : k = other <;> simp [here]
  · rename_i differ
    congr 2
    funext entry
    by_cases here : entry.1 = other
    · simp [here, differ]
    · simp [here]

theorem contains_iff {table : Table α} {key : String} :
    table.contains key = true ↔ key ∈ table.keys := by
  simp [contains, keys]

theorem mem_keys_insert (table : Table α) (key : String) (value : α) :
    key ∈ (table.insert key value).keys :=
  mem_keys.2 ⟨value, mem_upsert_self _ _ _⟩

theorem values_insert_of_not_mem {table : Table α} {key : String} (absent : key ∉ table.keys)
    (value : α) : (table.insert key value).values = table.values ++ [value] := by
  simp [values, upsert_of_not_mem absent value]

theorem size_insert_of_not_mem {table : Table α} {key : String} (absent : key ∉ table.keys)
    (value : α) : (table.insert key value).size = table.size + 1 := by
  rw [size, entries_insert, upsert_of_not_mem absent, List.length_append, List.length_singleton,
    size]

theorem mem_values_insert {table : Table α} {key : String} {value other : α}
    (member : other ∈ (table.insert key value).values) : other = value ∨ other ∈ table.values := by
  obtain ⟨k, listed⟩ := mem_values.1 member
  rcases mem_upsert listed with written | before
  · exact Or.inl (congrArg Prod.snd written)
  · exact Or.inr (mem_values.2 ⟨k, before⟩)

theorem mapValues_congr {f g : α → β} {table : Table α}
    (same : ∀ value ∈ table.values, f value = g value) : table.mapValues f = table.mapValues g := by
  apply ext
  simp only [mapValues]
  refine List.map_congr_left fun entry member => ?_
  rw [same entry.2 (mem_values.2 ⟨entry.1, member⟩)]

theorem mapValues_eq_self {f : α → α} {table : Table α}
    (same : ∀ value ∈ table.values, f value = value) : table.mapValues f = table := by
  apply ext
  rw [mapValues]
  refine (List.map_congr_left fun entry member => ?_).trans (List.map_id _)
  show (entry.1, f entry.2) = entry
  rw [same entry.2 (mem_values.2 ⟨entry.1, member⟩)]

theorem mapValues_mapValues {γ : Type} (f : α → β) (g : β → γ) (table : Table α) :
    (table.mapValues f).mapValues g = table.mapValues fun value => g (f value) := by
  apply ext
  simp [mapValues, Function.comp_def]

/-! ## Equality in any order -/

theorem beq_iff [BEq α] {a b : Table α} :
    (a == b) = true ↔
      a.size = b.size ∧ ∀ key value, (key, value) ∈ a.entries →
        ∃ value', (key, value') ∈ b.entries ∧ (value' == value) = true := by
  have found : ∀ key value, (b.get? key == some value) = true ↔
      ∃ value', (key, value') ∈ b.entries ∧ (value' == value) = true := by
    intro key value
    simp only [← get?_eq_some_iff]
    cases b.get? key <;> simp
  show sameEntries a b = true ↔ _
  simp only [sameEntries, Bool.and_eq_true, beq_iff_eq, List.all_eq_true, Prod.forall, found]

theorem keys_subset_of_beq [BEq α] {a b : Table α} (same : (a == b) = true) :
    a.keys ⊆ b.keys := by
  intro key member
  obtain ⟨value, listed⟩ := mem_keys.1 member
  obtain ⟨value', there, -⟩ := (beq_iff.1 same).2 key value listed
  exact mem_keys.2 ⟨value', there⟩

/-- Tables of one size with the same entries one way have them the other way, since
no key occurs twice. -/
instance [BEq α] [EquivBEq α] : EquivBEq (Table α) where
  rfl := by
    intro table
    exact beq_iff.2 ⟨rfl, fun key value listed => ⟨value, listed, BEq.rfl⟩⟩
  symm := by
    intro a b same
    obtain ⟨size, entries⟩ := beq_iff.1 same
    have length : b.keys.length ≤ a.keys.length := by
      simp only [keys, List.length_map]
      exact Nat.le_of_eq size.symm
    have perm : a.keys.Perm b.keys :=
      (List.subperm_of_subset a.nodup (keys_subset_of_beq same)).perm_of_length_le length
    refine beq_iff.2 ⟨size.symm, fun key value listed => ?_⟩
    obtain ⟨value', met⟩ := mem_keys.1 (perm.mem_iff.2 (mem_keys.2 ⟨value, listed⟩))
    obtain ⟨value'', there, equal⟩ := entries key value' met
    have one : value'' = value := by
      rw [← Option.some.injEq, ← get?_eq_some_iff.2 there, ← get?_eq_some_iff.2 listed]
    exact ⟨value', met, BEq.symm (one ▸ equal)⟩
  trans := by
    intro a b c first second
    obtain ⟨size, entries⟩ := beq_iff.1 first
    obtain ⟨size', entries'⟩ := beq_iff.1 second
    refine beq_iff.2 ⟨size.trans size', fun key value listed => ?_⟩
    obtain ⟨value', listed', equal⟩ := entries key value listed
    obtain ⟨value'', listed'', equal'⟩ := entries' key value' listed'
    exact ⟨value'', listed'', BEq.trans equal' equal⟩

theorem mem_of_beq [BEq α] [LawfulBEq α] {a b : Table α} (same : (a == b) = true)
    {entry : String × α} (member : entry ∈ a.entries) : entry ∈ b.entries := by
  obtain ⟨value, listed, equal⟩ := (beq_iff.1 same).2 entry.1 entry.2 member
  rw [eq_of_beq equal] at listed
  exact listed

theorem not_beq_insert [BEq α] {table : Table α} {key : String} (absent : key ∉ table.keys)
    (value : α) : ¬ (table.insert key value == table) = true := by
  intro same
  exact absent (keys_subset_of_beq same (mem_keys_insert table key value))

/-- Tables that give the same answer to every key hold the same entries. -/
theorem beq_of_get?_eq [BEq α] [ReflBEq α] {a b : Table α}
    (same : ∀ key, a.get? key = b.get? key) : (a == b) = true := by
  have entries : ∀ key value, (key, value) ∈ a.entries ↔ (key, value) ∈ b.entries := by
    intro key value
    rw [← get?_eq_some_iff, ← get?_eq_some_iff, same key]
  have keys : a.keys.Perm b.keys := by
    refine (List.perm_ext_iff_of_nodup a.nodup b.nodup).2 fun key => ?_
    show key ∈ a.keys ↔ key ∈ b.keys
    simp only [mem_keys, entries]
  refine beq_iff.2 ⟨?_, fun key value listed => ⟨value, (entries key value).1 listed, BEq.rfl⟩⟩
  simpa only [size, Table.keys, List.length_map] using keys.length_eq

/-- Writes to different keys commute, up to the order of the entries. -/
theorem insert_comm [BEq α] [ReflBEq α] (table : Table α) {key other : String}
    (ne : key ≠ other) (value value' : α) :
    (((table.insert key value).insert other value') ==
      ((table.insert other value').insert key value)) = true := by
  refine beq_of_get?_eq fun asked => ?_
  simp only [get?_insert]
  by_cases first : asked = key
  · rw [if_neg (first ▸ ne), if_pos first, if_pos first]
  · rw [if_neg first, if_neg first]

theorem mapValues_beq_mapValues [BEq β] {f g : α → β} {table : Table α}
    (same : ∀ value ∈ table.values, (g value == f value) = true) :
    (table.mapValues f == table.mapValues g) = true := by
  refine beq_iff.2 ⟨by simp only [size, mapValues, List.length_map], ?_⟩
  rintro key value listed
  obtain ⟨entry, before, written⟩ := List.mem_map.1 listed
  obtain ⟨rfl, rfl⟩ := Prod.mk.inj written
  exact ⟨g entry.2, List.mem_map.2 ⟨entry, before, rfl⟩,
    same entry.2 (mem_values.2 ⟨entry.1, before⟩)⟩

/-- Changing the values to equal ones changes each to an equal one: the keys stay,
so the order of the entries does not matter. -/
theorem beq_of_mapValues_beq [BEq α] [EquivBEq α] {f : α → α} {table : Table α}
    (same : (table.mapValues f == table) = true) :
    ∀ value ∈ table.values, (f value == value) = true := by
  intro value member
  obtain ⟨key, listed⟩ := mem_values.1 member
  have changed : (key, f value) ∈ (table.mapValues f).entries :=
    List.mem_map_of_mem (f := fun entry : String × α => (entry.1, f entry.2)) listed
  obtain ⟨value', there, equal⟩ := (beq_iff.1 same).2 key (f value) changed
  have one : value' = value := by
    rw [← Option.some.injEq, ← get?_eq_some_iff.2 there, ← get?_eq_some_iff.2 listed]
  exact BEq.symm (one ▸ equal)

/-! ## Tables keyed by a name of their values -/

/-- Every value stands under its own name. -/
def KeyedBy (name : α → String) (table : Table α) : Prop :=
  ∀ entry ∈ table.entries, entry.1 = name entry.2

instance (name : α → String) (table : Table α) : Decidable (KeyedBy name table) :=
  inferInstanceAs (Decidable (∀ entry ∈ table.entries, _))

namespace KeyedBy

variable {name : α → String} {table : Table α}

theorem keys_eq (keyed : KeyedBy name table) : table.keys = table.values.map name := by
  rw [keys, values, List.map_map]
  exact List.map_congr_left keyed

theorem entries_eq (keyed : KeyedBy name table) :
    table.entries = table.values.map fun value => (name value, value) := by
  rw [values, List.map_map]
  refine ((List.map_congr_left fun entry listed => ?_).trans (List.map_id _)).symm
  rw [Function.comp_apply, ← keyed entry listed]
  rfl

/-- A table keyed by names is what its values are, in their order. -/
theorem eq_of_values {other : Table α} (keyed : KeyedBy name table) (keyed' : KeyedBy name other)
    (same : table.values = other.values) : table = other := by
  refine Table.ext ?_
  rw [keyed.entries_eq, keyed'.entries_eq, same]

theorem get?_eq_some_iff (keyed : KeyedBy name table) {key : String} {value : α} :
    table.get? key = some value ↔ value ∈ table.values ∧ name value = key := by
  rw [Table.get?_eq_some_iff, mem_values]
  constructor
  · exact fun member => ⟨⟨key, member⟩, (keyed _ member).symm⟩
  · rintro ⟨⟨k, member⟩, rfl⟩
    exact keyed _ member ▸ member

theorem insert (keyed : KeyedBy name table) (value : α) :
    KeyedBy name (table.insert (name value) value) := by
  intro entry member
  rcases mem_upsert member with rfl | before
  · rfl
  · exact keyed entry before

/-- A value in the place of the one of its name. -/
theorem insert_eq_mapValues (keyed : KeyedBy name table) {key : String} {value : α}
    (found : table.get? key = some value) (f : α → α) :
    table.insert key (f value) = table.mapValues fun v => if name v = key then f v else v := by
  have member := Table.get?_eq_some_iff.1 found
  have present : key ∈ table.entries.map Prod.fst := List.mem_map_of_mem member
  refine Table.ext ?_
  rw [entries_insert, upsert_of_mem table.nodup present]
  refine List.map_congr_left fun entry listed => ?_
  show (entry.1, if entry.1 = key then f value else entry.2) =
    (entry.1, if name entry.2 = key then f entry.2 else entry.2)
  rw [keyed entry listed]
  by_cases here : name entry.2 = key
  · have one : value = entry.2 := by
      rw [← Option.some.injEq, ← found, keyed.get?_eq_some_iff]
      exact ⟨mem_values.2 ⟨entry.1, listed⟩, here⟩
    rw [if_pos here, if_pos here, one]
  · rw [if_neg here, if_neg here]

/-- What stands under another name is not overwritten. -/
theorem mem_values_insert_of_ne (keyed : KeyedBy name table) {key : String} {value other : α}
    (member : other ∈ table.values) (ne : name other ≠ key) :
    other ∈ (table.insert key value).values := by
  have found : (table.insert key value).get? (name other) = some other := by
    rw [get?_insert, if_neg ne]
    exact keyed.get?_eq_some_iff.2 ⟨member, rfl⟩
  exact mem_values.2 ⟨name other, Table.get?_eq_some_iff.1 found⟩

theorem mapValues {other : β → String} {f : α → β} (keyed : KeyedBy name table)
    (kept : ∀ value ∈ table.values, other (f value) = name value) :
    KeyedBy other (table.mapValues f) := by
  intro entry member
  obtain ⟨before, found, rfl⟩ := List.mem_map.1 member
  show before.1 = other (f before.2)
  rw [kept before.2 (mem_values.2 ⟨before.1, found⟩), keyed before found]

end KeyedBy

theorem keyedBy_empty (name : α → String) : KeyedBy name (empty : Table α) := by
  intro entry member
  cases member

/-! ## Keying by a name -/

/-- Write values under their names, one after the other. -/
def insertAll (name : α → String) (table : Table α) (values : List α) : Table α :=
  values.foldl (fun table value => table.insert (name value) value) table

theorem rekey_eq (name : α → String) (table : Table α) :
    table.rekey name = insertAll name empty table.values := by
  rw [rekey, ofList, List.foldl_map]
  rfl

theorem KeyedBy.insertAll {name : α → String} {table : Table α} (keyed : KeyedBy name table)
    (values : List α) : KeyedBy name (table.insertAll name values) := by
  induction values generalizing table with
  | nil => exact keyed
  | cons value values ih => exact ih (keyed.insert value)

theorem keyedBy_rekey (name : α → String) (table : Table α) : KeyedBy name (table.rekey name) := by
  rw [rekey_eq]
  exact (keyedBy_empty name).insertAll table.values

/-- Values with new and different names are appended. -/
theorem values_insertAll {name : α → String} {table : Table α} {values : List α}
    (distinct : (table.keys ++ values.map name).Nodup) :
    (table.insertAll name values).values = table.values ++ values := by
  induction values generalizing table with
  | nil => exact (List.append_nil _).symm
  | cons value values ih =>
      have absent : name value ∉ table.keys := fun member =>
        (List.nodup_append.1 distinct).2.2 _ member _ (List.mem_cons_self ..) rfl
      have keys : (table.insert (name value) value).keys = table.keys ++ [name value] := by
        rw [keys_insert, if_neg absent]
      have distinct' : ((table.insert (name value) value).keys ++ values.map name).Nodup := by
        rw [keys, List.append_assoc, List.singleton_append]
        exact distinct
      have values' := ih distinct'
      rw [values_insert_of_not_mem absent, List.append_assoc, List.singleton_append] at values'
      exact values'

/-- Values with different names stay in their order. -/
theorem values_rekey {name : α → String} {table : Table α}
    (distinct : (table.values.map name).Nodup) : (table.rekey name).values = table.values := by
  rw [rekey_eq]
  exact values_insertAll distinct

/-! ## Values under their names -/

theorem keyed_eq (name : α → String) (values : List α) :
    keyed name values = insertAll name empty values := by
  rw [keyed, ofList, List.foldl_map]
  rfl

theorem keyed_append (name : α → String) (values others : List α) :
    keyed name (values ++ others) = (keyed name values).insertAll name others := by
  rw [keyed_eq, keyed_eq, insertAll, List.foldl_append]
  rfl

theorem keyedBy_keyed (name : α → String) (values : List α) : KeyedBy name (keyed name values) := by
  rw [keyed_eq]
  exact (keyedBy_empty name).insertAll values

theorem mem_values_insertAll {name : α → String} {table : Table α} {values : List α} {value : α}
    (member : value ∈ (table.insertAll name values).values) :
    value ∈ table.values ∨ value ∈ values := by
  induction values generalizing table with
  | nil => exact Or.inl member
  | cons first values ih =>
      rcases ih member with before | later
      · rcases mem_values_insert before with rfl | before
        · exact Or.inr (List.mem_cons_self ..)
        · exact Or.inl before
      · exact Or.inr (List.mem_cons_of_mem _ later)

theorem values_keyed {name : α → String} {values : List α} (distinct : (values.map name).Nodup) :
    (keyed name values).values = values := by
  rw [keyed_eq]
  exact values_insertAll distinct

theorem keys_keyed_subset (name : α → String) (values : List α) :
    (keyed name values).keys ⊆ values.map name := by
  rw [(keyedBy_keyed name values).keys_eq]
  refine List.map_subset _ fun value member => ?_
  rw [keyed_eq] at member
  exact (mem_values_insertAll member).resolve_left (by simp [Table.values])

theorem length_keys (table : Table α) : table.keys.length = table.values.length := by
  rw [keys, values, List.length_map, List.length_map]

theorem length_values_keyed_le (name : α → String) (values : List α) :
    (keyed name values).values.length ≤ values.length := by
  have bound : (keyed name values).keys.length ≤ (values.map name).length :=
    (List.subperm_of_subset (keyed name values).nodup (keys_keyed_subset name values)).length_le
  rwa [length_keys, List.length_map] at bound

/-- Values are lost exactly when two have one name: no key occurs twice, so there are as
many keys as values only if no name does. -/
theorem length_values_keyed_iff {name : α → String} {values : List α} :
    (keyed name values).values.length = values.length ↔ (values.map name).Nodup := by
  constructor
  · intro length
    have bound : (values.map name).length ≤ (keyed name values).keys.length := by
      rw [length_keys, List.length_map]
      exact Nat.le_of_eq length.symm
    have perm : (keyed name values).keys.Perm (values.map name) :=
      (List.subperm_of_subset (keyed name values).nodup
        (keys_keyed_subset name values)).perm_of_length_le bound
    exact perm.nodup (keyed name values).nodup
  · intro distinct
    rw [values_keyed distinct]

theorem values_keyed_iff {name : α → String} {values : List α} :
    (keyed name values).values = values ↔ (values.map name).Nodup :=
  ⟨fun same => length_values_keyed_iff.1 (congrArg List.length same), values_keyed⟩

/-- Changing the values loses none of them. -/
theorem map_values_keyed_iff {name : α → String} {values : List α} (f : α → β) :
    (keyed name values).values.map f = values.map f ↔ (values.map name).Nodup := by
  constructor
  · intro same
    have length := congrArg List.length same
    rw [List.length_map, List.length_map] at length
    exact length_values_keyed_iff.1 length
  · intro distinct
    rw [values_keyed distinct]

/-- Values that are put under one name and then under another, which is made of the first,
are lost exactly when two have the same second name. -/
theorem values_rekey_keyed_iff {name : α → String} {values : List α} {f : α → α}
    (rename : String → String) (renamed : ∀ value, name (f value) = rename (name value)) :
    (((keyed name values).mapValues f).rekey name).values = values.map f ↔
      (values.map fun value => rename (name value)).Nodup := by
  have names : (values.map f).map name = values.map fun value => rename (name value) := by
    rw [List.map_map]
    exact List.map_congr_left fun value _ => renamed value
  show (keyed name ((keyed name values).mapValues f).values).values = values.map f ↔ _
  rw [values_mapValues]
  constructor
  · intro same
    have length := congrArg List.length same
    have first := length_values_keyed_le name values
    have second := length_values_keyed_le name ((keyed name values).values.map f)
    rw [length, List.length_map, List.length_map] at second
    have kept := values_keyed (length_values_keyed_iff.1 (Nat.le_antisymm first second))
    rw [kept, values_keyed_iff, names] at same
    exact same
  · intro distinct
    have first : (values.map name).Nodup := by
      have composed : (values.map name).map rename = values.map fun value => rename (name value) :=
        List.map_map
      rw [← composed] at distinct
      exact List.Nodup.of_map rename distinct
    rw [values_keyed first]
    exact values_keyed (names ▸ distinct)

theorem get?_insertAll_of_not_mem {name : α → String} {values : List α} {key : String}
    (absent : key ∉ values.map name) (table : Table α) :
    (table.insertAll name values).get? key = table.get? key := by
  induction values generalizing table with
  | nil => rfl
  | cons value values ih =>
      simp only [List.map_cons, List.mem_cons, not_or] at absent
      rw [insertAll, List.foldl_cons, ← insertAll, ih absent.2, get?_insert, if_neg absent.1]

/-- Of the values with one name the last is found. -/
theorem get?_keyed_last {name : α → String} (before : List α) (value : α) {after : List α}
    (last : name value ∉ after.map name) :
    (keyed name (before ++ value :: after)).get? (name value) = some value := by
  rw [keyed_append, insertAll, List.foldl_cons, ← insertAll, get?_insertAll_of_not_mem last,
    get?_insert, if_pos rfl]

end Table

end Emend
