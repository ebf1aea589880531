import Emend.Proofs.Manifest.Project
import Emend.Proofs.Text
import Emend.Proofs.Text.Bytes
import Mathlib.Data.Finset.Card

/-!
# Listing a namespace is exact

A manifest is made by writing one class after the other, and several spellings of a name
write to the same place. What is listed for a namespace is said by the writes alone:

* the stored names are those of the writes, each once (`mem_keys_ofList`, `size_ofList`),
  and each has the path that was written last (`mem_entries_ofList`);
* the listing holds what continues the name of the namespace after a separator
  (`isInside_iff`), in the order of the bytes of the names (`pairwise_inNamespace`).

A store that is looked up by the beginning of a name may give more than was asked for, and
in any order. As long as it gives everything inside, each entry once, the listing is the
same (`listing_eq`).
-/

set_option autoImplicit false

namespace Emend.Manifest

/-! ## What a sequence of writes leaves -/

theorem mem_keys_insert {manifest : Manifest} {name path stored : String} :
    stored ∈ (manifest.insert name path).paths.keys ↔
      stored = key name ∨ stored ∈ manifest.paths.keys := by
  show stored ∈ (manifest.paths.insert (key name) path).keys ↔ _
  rw [Table.keys_insert]
  split <;> grind

theorem mem_keys_foldl_insert (manifest : Manifest) (inserts : List (String × String))
    (stored : String) :
    stored ∈ (inserts.foldl (fun manifest (name, path) => manifest.insert name path)
        manifest).paths.keys ↔
      stored ∈ manifest.paths.keys ∨ stored ∈ inserts.map fun insert => key insert.1 := by
  induction inserts generalizing manifest with
  | nil => simp
  | cons insert inserts ih =>
      rw [List.foldl_cons, ih, mem_keys_insert, List.map_cons, List.mem_cons, or_assoc]
      exact or_left_comm

theorem mem_keys_ofList {inserts : List (String × String)} {stored : String} :
    stored ∈ (ofList inserts).paths.keys ↔ stored ∈ inserts.map fun insert => key insert.1 := by
  rw [ofList, mem_keys_foldl_insert]
  exact or_iff_right (List.not_mem_nil)

/-- **Every stored name has the path that was written last.** -/
theorem mem_entries_ofList {inserts : List (String × String)} {stored path : String} :
    (stored, path) ∈ (ofList inserts).paths.entries ↔
      ∃ name, key name = stored ∧ (candidates inserts name).getLast? = some path := by
  constructor
  · intro entry
    have present : stored ∈ (ofList inserts).paths.keys := List.mem_map_of_mem entry
    obtain ⟨insert, -, rfl⟩ := List.mem_map.1 (mem_keys_ofList.1 present)
    refine ⟨insert.1, rfl, ?_⟩
    rw [← get?_ofList, get?, Table.get?_eq_some_iff]
    exact entry
  · rintro ⟨name, rfl, last⟩
    rw [← get?_ofList, get?, Table.get?_eq_some_iff] at last
    exact last

/-- There are as many classes as different stored names were written. -/
theorem size_ofList (inserts : List (String × String)) :
    (ofList inserts).size = (inserts.map fun insert => key insert.1).toFinset.card := by
  have same : (ofList inserts).paths.keys.toFinset =
      (inserts.map fun insert => key insert.1).toFinset := by
    ext stored
    rw [List.mem_toFinset, List.mem_toFinset, mem_keys_ofList]
  have once : (ofList inserts).paths.keys.Nodup := (ofList inserts).paths.nodup
  rw [← same, List.toFinset_card_of_nodup once, Table.length_keys, size, Table.size, Table.values,
    List.length_map]

/-! ## What is listed -/

theorem isInside_iff {space stored : String} :
    isInside space stored = true ↔ space = "" ∨ ∃ rest, stored = space ++ "\\" ++ rest := by
  rw [isInside, Bool.or_eq_true, String.isEmpty_iff, Option.isSome_iff_exists]
  simp only [Text.strip?_eq_some_iff]

/-- The listing of a namespace from the entries that a lookup gave: those inside, in the
order of their names. -/
def listing (space : String) (held : List (String × String)) : List (String × String) :=
  (held.filter fun (name, _) => isInside space name).mergeSort fun a b => a.1 ≤ b.1

theorem inNamespace_eq (manifest : Manifest) (space : String) :
    manifest.inNamespace space = listing (key space) manifest.paths.entries := rfl

/-- What a lookup by the beginning of a name gives: entries of the manifest, each at most
once and in any order, and among them all that lie inside the namespace. -/
structure Covers (manifest : Manifest) (space : String) (held : List (String × String)) :
    Prop where
  once : held.Nodup
  stored : ∀ entry ∈ held, entry ∈ manifest.paths.entries
  complete : ∀ entry ∈ manifest.paths.entries, isInside space entry.1 = true → entry ∈ held

section Listing

variable {manifest : Manifest} {space : String} {held : List (String × String)}

theorem mem_listing {entry : String × String} :
    entry ∈ listing space held ↔ entry ∈ held ∧ isInside space entry.1 = true := by
  rw [listing, List.mem_mergeSort, List.mem_filter]

theorem sorted_listing (space : String) (held : List (String × String)) :
    (listing space held).Pairwise fun a b => a.1 ≤ b.1 := by
  have sorted : (listing space held).Pairwise fun a b => decide (a.1 ≤ b.1) = true := by
    refine List.pairwise_mergeSort ?_ ?_ _
    · intro a b c first second
      exact decide_eq_true (le_trans (of_decide_eq_true first) (of_decide_eq_true second))
    · intro a b
      simpa using le_total a.1 b.1
  exact sorted.imp of_decide_eq_true

theorem nodup_entries (manifest : Manifest) : manifest.paths.entries.Nodup :=
  manifest.paths.nodup.of_map _

/-- Two entries under one name are the same. -/
theorem eq_of_fst_eq {a b : String × String} (left : a ∈ manifest.paths.entries)
    (right : b ∈ manifest.paths.entries) (same : a.1 = b.1) : a = b :=
  List.inj_on_of_nodup_map manifest.paths.nodup left right same

/-- **What is listed does not depend on what else a lookup gave.** -/
theorem listing_eq (covers : manifest.Covers space held) :
    listing space held = listing space manifest.paths.entries := by
  have perm : (listing space held).Perm (listing space manifest.paths.entries) := by
    refine ((List.mergeSort_perm _ _).trans ?_).trans (List.mergeSort_perm _ _).symm
    refine (List.perm_ext_iff_of_nodup (covers.once.filter _)
      ((nodup_entries manifest).filter _)).2 fun entry => ?_
    rw [List.mem_filter, List.mem_filter]
    constructor
    · rintro ⟨given, inside⟩
      exact ⟨covers.stored entry given, inside⟩
    · rintro ⟨stored, inside⟩
      exact ⟨covers.complete entry stored inside, inside⟩
  refine perm.eq_of_pairwise (fun a b left right before after => ?_) (sorted_listing space held)
    (sorted_listing space _)
  exact eq_of_fst_eq (covers.stored a (mem_listing.1 left).1) (mem_listing.1 right).1
    (le_antisymm before after)

/-- **The names are listed in the order of their bytes**, each once. -/
theorem pairwise_inNamespace (manifest : Manifest) (space : String) :
    (manifest.inNamespace space).Pairwise fun a b => Text.bytes a.1 < Text.bytes b.1 := by
  rw [inNamespace_eq]
  have once : (listing (key space) manifest.paths.entries).Nodup :=
    (List.mergeSort_perm _ _).nodup_iff.2 ((nodup_entries manifest).filter _)
  refine ((sorted_listing _ _).and once).imp_of_mem fun left right both => ?_
  refine Text.bytes_lt_bytes (lt_of_le_of_ne both.1 fun same => both.2 ?_)
  exact eq_of_fst_eq (mem_listing.1 left).1 (mem_listing.1 right).1 same

end Listing

/-- **Listing a namespace is exact.** After any writes, the listing of a namespace holds
the stored names that continue its name after a separator, or all of them for the empty
name: each once, in the order of their bytes, with the path that was written last. It is
the same from any lookup that gives everything inside. The size of the manifest is the
number of different stored names. -/
theorem inNamespace_exact (inserts : List (String × String)) (space : String) :
    ((ofList inserts).inNamespace space).Pairwise
        (fun a b => Text.bytes a.1 < Text.bytes b.1) ∧
      (∀ stored path, (stored, path) ∈ (ofList inserts).inNamespace space ↔
        (∃ name, key name = stored ∧ (candidates inserts name).getLast? = some path) ∧
          (key space = "" ∨ ∃ rest, stored = key space ++ "\\" ++ rest)) ∧
      (∀ held, (ofList inserts).Covers (key space) held →
        listing (key space) held = (ofList inserts).inNamespace space) ∧
      (ofList inserts).size = (inserts.map fun insert => key insert.1).toFinset.card := by
  refine ⟨pairwise_inNamespace _ space, fun stored path => ?_, fun held covers => ?_,
    size_ofList inserts⟩
  · rw [inNamespace_eq, mem_listing, mem_entries_ofList, isInside_iff]
  · rw [inNamespace_eq, listing_eq covers]

namespace Example

/-- A class in two spellings, one of another namespace that begins alike, and one that has
the name of the namespace. -/
def spellings : List (String × String) :=
  [("App\\Models\\User", "a.php"), ("App\\ModelsExtra\\Tag", "c.php"),
    ("\\\\App\\Models\\User ", "b.php"), ("App\\Models", "d.php")]

/-- A lookup that gives a class too much does not change the listing, which names the file
of the later spelling. -/
theorem inNamespace_exact_spellings :
    (ofList spellings).Covers (key " \\App\\Models")
        [("App\\ModelsExtra\\Tag", "c.php"), ("App\\Models\\User", "b.php")] ∧
      listing (key " \\App\\Models")
          [("App\\ModelsExtra\\Tag", "c.php"), ("App\\Models\\User", "b.php")] =
        (ofList spellings).inNamespace " \\App\\Models" ∧
      ("App\\Models\\User", "b.php") ∈ (ofList spellings).inNamespace " \\App\\Models" ∧
      (ofList spellings).size = 3 := by
  obtain ⟨-, listed, lookup, size⟩ := inNamespace_exact spellings " \\App\\Models"
  have covers : (ofList spellings).Covers (key " \\App\\Models")
      [("App\\ModelsExtra\\Tag", "c.php"), ("App\\Models\\User", "b.php")] :=
    ⟨by decide +kernel, by decide +kernel, by decide +kernel⟩
  refine ⟨covers, lookup _ covers, ?_, ?_⟩
  · rw [listed]
    exact ⟨⟨"App\\Models\\User", by decide +kernel, by decide +kernel⟩,
      Or.inr ⟨"User", by decide +kernel⟩⟩
  · rw [size]
    decide +kernel

end Example

end Emend.Manifest
