import Mathlib.Data.String.Basic
import Mathlib.Tactic.Common

/-!
# The order of texts and of their bytes

Texts are ordered by their characters and bytes by their values. In UTF-8 the first byte of a
character tells how many there are, more for a character that comes later, and all bytes of a
character are digits of its code point from the greatest to the least. Therefore texts are ordered
as their bytes are.

## Main definitions

* `Utf8.bytes`: the bytes that encode a text.

## Main results

* `Utf8.bytes_lt_bytes_iff`: texts and their bytes have the same order.
-/

namespace Filewise.Utf8

variable {a b : String} {c d : Char}

/-- The bytes that encode a text. -/
def bytes (text : String) : List UInt8 := text.toUTF8.data.toList

theorem bytes_eq (text : String) : bytes text = text.toList.flatMap String.utf8EncodeChar := by
  rw [bytes, String.toUTF8, ← String.ofList_toList (s := text), String.toByteArray_ofList,
    List.utf8Encode, List.data_toByteArray, String.ofList_toList]

/-! ### The bytes of a character -/

theorem lastDigit_of_lt {n m : Nat} (h : n < m) :
    n / 64 < m / 64 ∨ n / 64 = m / 64 ∧ n % 64 < m % 64 := by
  omega

/-- Numbers are ordered by their digits to the base 64. The first one of four is all that the others
leave. -/
theorem digits_of_lt {n m : Nat} (h : n < m) :
    n / 262144 < m / 262144 ∨ n / 262144 = m / 262144 ∧
      (n / 4096 % 64 < m / 4096 % 64 ∨ n / 4096 % 64 = m / 4096 % 64 ∧
        (n / 64 % 64 < m / 64 % 64 ∨ n / 64 % 64 = m / 64 % 64 ∧ n % 64 < m % 64)) := by
  have htwice : ∀ k : Nat, k / 4096 = k / 64 / 64 := by
    simp [Nat.div_div_eq_div_mul]
  have hthrice : ∀ k : Nat, k / 262144 = k / 64 / 64 / 64 := by
    simp [Nat.div_div_eq_div_mul]
  simp only [hthrice, htwice]
  rcases lastDigit_of_lt h with h | ⟨h, hlast⟩
  · rcases lastDigit_of_lt h with h | ⟨h, hthird⟩
    · rcases lastDigit_of_lt h with h | ⟨h, hsecond⟩
      · exact Or.inl h
      · exact Or.inr ⟨h, Or.inl hsecond⟩
    · rw [h]
      exact Or.inr ⟨rfl, Or.inr ⟨rfl, Or.inl hthird⟩⟩
  · rw [h]
    exact Or.inr ⟨rfl, Or.inr ⟨rfl, Or.inr ⟨rfl, hlast⟩⟩⟩

/-- There is room for the first digit of every code point. -/
theorem firstDigit_mod (c : Char) : c.val.toNat / 262144 % 8 = c.val.toNat / 262144 := by
  have hvalid : c.val.toNat < 1114112 := by
    have h := c.valid
    simp only [UInt32.isValidChar, Nat.isValidChar] at h
    omega
  apply Nat.mod_eq_of_lt
  omega

/-- A digit that is written into a byte with a mark in front stays below the mark. -/
theorem markedDigit_mod {base mark : Nat} (n : Nat) (hpos : 0 < base) (h : base + mark ≤ 256) :
    (n % base + mark) % 256 = n % base + mark := by
  have hlt := Nat.mod_lt n hpos
  apply Nat.mod_eq_of_lt
  omega

/-- The bytes of a character come before those of a later one, whatever follows. -/
theorem encode_append_lt (h : c < d) (rest rest' : List UInt8) :
    String.utf8EncodeChar c ++ rest < String.utf8EncodeChar d ++ rest' := by
  have hval : c.val.toNat < d.val.toNat := h
  have hdigits := digits_of_lt hval
  have hc := firstDigit_mod c
  have hd := firstDigit_mod d
  unfold String.utf8EncodeChar
  dsimp only
  -- of different lengths, the marks in the first bytes decide, and otherwise the digits do
  split_ifs <;>
    simp only [List.cons_append, List.nil_append, List.cons_lt_cons_iff, UInt8.lt_iff_toNat_lt,
      ← UInt8.toNat_inj, UInt8.toNat_ofNat', Nat.reducePow, Nat.reduceAdd, Nat.reduceLeDiff,
      Nat.reduceLT, markedDigit_mod] <;>
    omega

/-! ### The bytes of a text -/

theorem flatMap_encode_lt {l m : List Char} (h : l < m) :
    l.flatMap String.utf8EncodeChar < m.flatMap String.utf8EncodeChar := by
  induction h with
  | @nil d m =>
    -- every character has some byte
    obtain ⟨first, rest, hbytes⟩ : ∃ first rest, String.utf8EncodeChar d = first :: rest := by
      apply List.exists_cons_of_ne_nil
      exact String.utf8EncodeChar_ne_nil
    rw [List.flatMap_nil, List.flatMap_cons, hbytes, List.cons_append]
    exact List.nil_lt_cons _ _
  | rel h =>
    rw [List.flatMap_cons, List.flatMap_cons]
    exact encode_append_lt h _ _
  | cons _ ih =>
    rw [List.flatMap_cons, List.flatMap_cons]
    exact List.Lex.append_left _ ih _

theorem bytes_lt_bytes (h : a < b) : bytes a < bytes b := by
  rw [bytes_eq, bytes_eq]
  exact flatMap_encode_lt h

/-- Texts are ordered as the bytes that encode them. -/
theorem bytes_lt_bytes_iff : bytes a < bytes b ↔ a < b := by
  refine ⟨fun h => ?_, bytes_lt_bytes⟩
  rcases lt_trichotomy a b with hlt | rfl | hlt
  · exact hlt
  · exact absurd h (List.lt_irrefl _)
  · exact absurd h (List.lt_asymm (bytes_lt_bytes hlt))

end Filewise.Utf8
