/-!
# Tables: ordered maps from names to values

A `Table` remembers the order in which its keys were first inserted. Writing to
a key that is present replaces the value where it stands; writing to a new key
appends. No key occurs twice, by construction.

Two tables are `==` when they hold the same value under each key, whatever
the order of the keys.
-/

set_option autoImplicit false

namespace Emend

/-- Replace the value under `key` where it stands, or append the entry. -/
def upsert {α : Type} (key : String) (value : α) : List (String × α) → List (String × α)
  | [] => [(key, value)]
  | (k, v) :: rest => if k = key then (k, value) :: rest else (k, v) :: upsert key value rest

/-- Writing keeps the keys and their order, and puts a new key at the end. -/
theorem keys_upsert {α : Type} (key : String) (value : α) (entries : List (String × α)) :
    (upsert key value entries).map Prod.fst =
      if key ∈ entries.map Prod.fst then entries.map Prod.fst
      else entries.map Prod.fst ++ [key] := by
  induction entries with
  | nil => simp [upsert]
  | cons entry rest ih =>
    obtain ⟨k, v⟩ := entry
    by_cases h : k = key
    · simp [upsert, h]
    · have h' : ¬ key = k := fun e => h e.symm
      by_cases m : key ∈ rest.map Prod.fst
      · simp only [upsert, h, if_false, List.map_cons, ih, m, if_true, List.mem_cons, or_true]
      · simp only [upsert, h, if_false, List.map_cons, ih, m, List.mem_cons, h', or_false,
          List.cons_append]

/-- Writing makes no key occur twice. -/
theorem nodup_upsert {α : Type} (key : String) (value : α) (entries : List (String × α))
    (nodup : (entries.map Prod.fst).Nodup) : ((upsert key value entries).map Prod.fst).Nodup := by
  rw [keys_upsert]
  split
  · exact nodup
  · rename_i absent
    rw [List.nodup_append]
    refine ⟨nodup, by simp, ?_⟩
    intro a ha b hb
    rw [List.mem_singleton] at hb
    intro e
    exact absent (hb ▸ e ▸ ha)

structure Table (α : Type) where
  /-- The entries in the order in which their keys were first inserted. -/
  entries : List (String × α)
  nodup : (entries.map Prod.fst).Nodup

namespace Table

variable {α β : Type}

def empty : Table α := ⟨[], List.nodup_nil⟩

instance : Inhabited (Table α) := ⟨empty⟩

instance : EmptyCollection (Table α) := ⟨empty⟩

/-- Write `value` under `key`. -/
def insert (table : Table α) (key : String) (value : α) : Table α :=
  ⟨upsert key value table.entries, nodup_upsert key value table.entries table.nodup⟩

/-- Write the entries one after the other into the empty table. -/
def ofList (entries : List (String × α)) : Table α :=
  entries.foldl (fun table (key, value) => table.insert key value) empty

/-- The value under `key`. -/
def get? (table : Table α) (key : String) : Option α :=
  (table.entries.find? fun (k, _) => k == key).map Prod.snd

/-- Whether there is a value under `key`. -/
def contains (table : Table α) (key : String) : Bool :=
  table.entries.any fun (k, _) => k == key

def keys (table : Table α) : List String := table.entries.map Prod.fst

def values (table : Table α) : List α := table.entries.map Prod.snd

def size (table : Table α) : Nat := table.entries.length

def isEmpty (table : Table α) : Bool := table.entries.isEmpty

/-- Change every value and keep the keys. -/
def mapValues (f : α → β) (table : Table α) : Table β :=
  ⟨table.entries.map fun (key, value) => (key, f value), by
    have := table.nodup
    simpa [List.map_map, Function.comp_def] using this⟩

/-- Change the value under `key`, if there is one. -/
def modify (table : Table α) (key : String) (f : α → α) : Table α :=
  match table.get? key with
  | some value => table.insert key (f value)
  | none => table

/-- The values under their names; of two values with one name the later one stands
at the place of the earlier one. -/
def keyed (name : α → String) (values : List α) : Table α :=
  ofList (values.map fun value => (name value, value))

/-- Key every value by `name`; of two values with one name the later one stands
at the place of the earlier one. -/
def rekey (name : α → String) (table : Table α) : Table α :=
  ofList (table.values.map fun value => (name value, value))

/-- Same value under each key, in any order. -/
def sameEntries [BEq α] (a b : Table α) : Bool :=
  a.size == b.size && a.entries.all fun (key, value) => b.get? key == some value

instance [BEq α] : BEq (Table α) := ⟨sameEntries⟩

instance [DecidableEq α] : DecidableEq (Table α) := fun a b =>
  if h : a.entries = b.entries then
    isTrue (by cases a; cases b; cases h; rfl)
  else
    isFalse (fun e => h (e ▸ rfl))

/-! ## What each operation does to the entries -/

/-- The empty table has no entries. -/
@[simp] theorem entries_empty : (empty : Table α).entries = [] := rfl

/-- Writing to a table is writing to its entries. -/
@[simp] theorem entries_insert (table : Table α) (key : String) (value : α) :
    (table.insert key value).entries = upsert key value table.entries := rfl

/-- The keys after a write. -/
theorem keys_insert (table : Table α) (key : String) (value : α) :
    (table.insert key value).keys =
      if key ∈ table.keys then table.keys else table.keys ++ [key] :=
  keys_upsert key value table.entries

/-- Changing the values keeps the keys. -/
@[simp] theorem keys_mapValues (f : α → β) (table : Table α) :
    (table.mapValues f).keys = table.keys := by
  simp [mapValues, keys, List.map_map, Function.comp_def]

/-- Changing the values changes each of them. -/
@[simp] theorem values_mapValues (f : α → β) (table : Table α) :
    (table.mapValues f).values = table.values.map f := by
  simp [mapValues, values, List.map_map, Function.comp_def]

end Table

end Emend
