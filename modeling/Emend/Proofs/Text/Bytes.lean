import Emend.Text.Utf8
import Mathlib.Data.String.Basic

/-!
# Texts in the order of their bytes

Texts are compared character by character, by code point. Their UTF-8 bytes come out in
the same order (`bytes_lt_bytes`): of two characters the smaller one is spelled by bytes
that are smaller at the first place where the two spellings differ, and neither spelling
is the beginning of the other (`encode_lt_encode`).
-/

set_option autoImplicit false

namespace Emend.Text

/-! ## The bytes of a text -/

theorem loop_toList (bs : ByteArray) (i : Nat) (read : List UInt8) :
    ByteArray.toList.loop bs i read = read.reverse ++ bs.data.toList.drop i := by
  fun_induction ByteArray.toList.loop bs i read with
  | case1 i read inside ih =>
      have there : i < bs.data.toList.length := by
        rw [Array.length_toList]
        exact inside
      have here : bs.get! i = bs.data.toList[i] := by
        show bs.data[i]! = _
        rw [getElem!_pos bs.data i inside, Array.getElem_toList]
      rw [ih, List.reverse_cons, List.append_assoc, List.singleton_append, here,
        List.getElem_cons_drop]
  | case2 i read outside =>
      have empty : bs.data.toList.drop i = [] := by
        rw [List.drop_eq_nil_iff, Array.length_toList]
        exact Nat.le_of_not_lt outside
      rw [empty, List.append_nil]

theorem bytes_eq (s : String) : bytes s = s.toList.flatMap String.utf8EncodeChar := by
  have encoded : s.toUTF8 = (s.toList.flatMap String.utf8EncodeChar).toByteArray := by
    rw [← List.utf8Encode, String.utf8Encode_toList]
    rfl
  rw [bytes, ByteArray.toList, loop_toList, encoded, List.toList_data_toByteArray]
  rfl

/-! ## Their order -/

/-- Bytes are compared as numbers, and what follows counts only behind equal bytes. -/
theorem cons_lt_cons {a b : Nat} (left : a < 256) (right : b < 256) {x y : List UInt8}
    (before : a < b ∨ a = b ∧ x < y) : UInt8.ofNat a :: x < UInt8.ofNat b :: y := by
  rw [List.cons_lt_cons_iff]
  rcases before with less | ⟨rfl, rest⟩
  · left
    rw [UInt8.lt_iff_toNat_lt, UInt8.toNat_ofNat_of_lt' left, UInt8.toNat_ofNat_of_lt' right]
    exact less
  · exact Or.inr ⟨rfl, rest⟩

/-! The bytes behind the first hold six bits each, the higher ones first. -/

section Behind

variable {v w : Nat} (order : v < w) (x y : List UInt8)

include order

theorem oneBehind_lt (same : v / 64 = w / 64) :
    UInt8.ofNat (v % 64 + 128) :: x < UInt8.ofNat (w % 64 + 128) :: y :=
  cons_lt_cons (by omega) (by omega) (Or.inl (by omega))

theorem twoBehind_lt (same : v / 4096 = w / 4096) :
    UInt8.ofNat (v / 64 % 64 + 128) :: UInt8.ofNat (v % 64 + 128) :: x <
      UInt8.ofNat (w / 64 % 64 + 128) :: UInt8.ofNat (w % 64 + 128) :: y := by
  refine cons_lt_cons (by omega) (by omega) ?_
  by_cases less : v / 64 < w / 64
  · left
    omega
  · exact Or.inr ⟨by omega, oneBehind_lt order x y (by omega)⟩

theorem threeBehind_lt (same : v / 262144 = w / 262144) :
    UInt8.ofNat (v / 4096 % 64 + 128) :: UInt8.ofNat (v / 64 % 64 + 128) ::
        UInt8.ofNat (v % 64 + 128) :: x <
      UInt8.ofNat (w / 4096 % 64 + 128) :: UInt8.ofNat (w / 64 % 64 + 128) ::
        UInt8.ofNat (w % 64 + 128) :: y := by
  refine cons_lt_cons (by omega) (by omega) ?_
  by_cases less : v / 4096 < w / 4096
  · left
    omega
  · exact Or.inr ⟨by omega, twoBehind_lt order x y (by omega)⟩

end Behind

/-- **The smaller character has the smaller bytes**, whatever follows. -/
theorem encode_lt_encode {c d : Char} (less : c < d) (x y : List UInt8) :
    String.utf8EncodeChar c ++ x < String.utf8EncodeChar d ++ y := by
  have order : c.val.toNat < d.val.toNat := less
  have bound : d.val.toNat < 0x110000 := by
    have valid := d.valid
    simp only [UInt32.isValidChar, Nat.isValidChar] at valid
    omega
  unfold String.utf8EncodeChar
  generalize c.val.toNat = v at order
  generalize d.val.toNat = w at order bound
  dsimp only
  -- more bytes have a greater first one; as many are compared byte by byte
  split_ifs <;> simp only [List.cons_append, List.nil_append] <;>
    refine cons_lt_cons (by omega) (by omega) ?_ <;> try (exact Or.inl (by omega))
  · by_cases less : v / 64 < w / 64
    · exact Or.inl (by omega)
    · exact Or.inr ⟨by omega, oneBehind_lt order x y (by omega)⟩
  · by_cases less : v / 4096 < w / 4096
    · exact Or.inl (by omega)
    · exact Or.inr ⟨by omega, twoBehind_lt order x y (by omega)⟩
  · by_cases less : v / 262144 < w / 262144
    · exact Or.inl (by omega)
    · exact Or.inr ⟨by omega, threeBehind_lt order x y (by omega)⟩

theorem flatMap_encode_lt {cs ds : List Char} (less : cs < ds) :
    cs.flatMap String.utf8EncodeChar < ds.flatMap String.utf8EncodeChar := by
  induction cs generalizing ds with
  | nil =>
      cases ds with
      | nil => exact absurd less (List.lt_irrefl [])
      | cons d ds =>
          obtain ⟨b, bs, spelled⟩ := List.exists_cons_of_ne_nil (String.utf8EncodeChar_ne_nil (c := d))
          rw [List.flatMap_cons, spelled]
          exact List.nil_lt_cons ..
  | cons c cs ih =>
      cases ds with
      | nil => exact absurd less (List.not_lt_nil _)
      | cons d ds =>
          rw [List.flatMap_cons, List.flatMap_cons]
          rcases List.cons_lt_cons_iff.1 less with first | ⟨rfl, rest⟩
          · exact encode_lt_encode first _ _
          · exact List.append_left_lt (ih rest)

/-- **The order of texts is the order of their bytes.** -/
theorem bytes_lt_bytes {s t : String} (less : s < t) : bytes s < bytes t := by
  rw [bytes_eq, bytes_eq]
  exact flatMap_encode_lt (String.lt_iff_toList_lt.1 less)

end Emend.Text
