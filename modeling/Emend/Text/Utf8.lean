/-!
# Bytes and texts

Texts are written as UTF-8. Bytes that are not UTF-8 can still be read: where no
character is spelled, the bytes that could have started one are replaced by one
replacement character.
-/

set_option autoImplicit false

namespace Emend.Text

def bytes (s : String) : List UInt8 := s.toUTF8.toList

/-- The character that stands for what cannot be read. -/
def replacement : Char := Char.ofNat 0xFFFD

/-- The bytes that may follow a first byte: how many, and the bounds of the next
one. -/
def following (first : Nat) : Option (Nat × Nat × Nat) :=
  if 0xC2 ≤ first && first ≤ 0xDF then some (1, 0x80, 0xBF)
  else if first == 0xE0 then some (2, 0xA0, 0xBF)
  else if first == 0xED then some (2, 0x80, 0x9F)
  else if 0xE1 ≤ first && first ≤ 0xEF then some (2, 0x80, 0xBF)
  else if first == 0xF0 then some (3, 0x90, 0xBF)
  else if 0xF1 ≤ first && first ≤ 0xF3 then some (3, 0x80, 0xBF)
  else if first == 0xF4 then some (3, 0x80, 0x8F)
  else none

/-- The bits of a first byte that belong to the character, when `count` bytes
follow. -/
def leading (count first : Nat) : Nat :=
  first % (if count == 1 then 32 else if count == 2 then 16 else 8)

/-- Read the rest of a character of which `count` bytes are missing; the next one
lies between `low` and `high`. `none` when a byte does not fit. -/
def continuation (count low high code : Nat) (bytes : List UInt8) : Option Char × List UInt8 :=
  match count, bytes with
  | 0, rest => (some (Char.ofNat code), rest)
  | _ + 1, [] => (none, [])
  | count + 1, b :: rest =>
    if low ≤ b.toNat && b.toNat ≤ high then
      continuation count 0x80 0xBF (code * 64 + b.toNat % 64) rest
    else (none, b :: rest)

/-- Reading the bytes after the first takes none away that were not there. -/
theorem length_continuation (count low high code : Nat) (bytes : List UInt8) :
    (continuation count low high code bytes).2.length ≤ bytes.length := by
  induction count generalizing low high code bytes with
  | zero => simp [continuation]
  | succ count ih =>
    cases bytes with
    | nil => simp [continuation]
    | cons b rest =>
      simp only [continuation]
      split
      · exact Nat.le_succ_of_le (ih ..)
      · exact Nat.le_refl _

def charsOfBytes : List UInt8 → List Char
  | [] => []
  | b :: rest =>
    if b.toNat < 0x80 then Char.ofNat b.toNat :: charsOfBytes rest
    else
      match following b.toNat with
      | none => replacement :: charsOfBytes rest
      | some (count, low, high) =>
        let read := continuation count low high (leading count b.toNat) rest
        read.1.getD replacement :: charsOfBytes read.2
termination_by bytes => bytes.length
decreasing_by
  · simp
  · simp
  · have := length_continuation count low high (leading count b.toNat) rest
    simp only [List.length_cons]
    omega

def ofBytes (bytes : List UInt8) : String := .ofList (charsOfBytes bytes)

end Emend.Text
