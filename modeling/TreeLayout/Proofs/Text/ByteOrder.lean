import Mathlib.Data.List.Lex
import TreeLayout.Proofs.Text.Bytes

/-!
# The order of bytes

The bytes of texts are ordered as the texts are, character by character. A longer form of a character starts
with a greater byte, and forms of one length hold the digits of the code point from the greatest one on.
-/

namespace TreeLayout.Text

/-- Code points end well below the range of four digits. -/
theorem toNat_val_lt (c : Char) : c.val.toNat < 0x110000 := by
  have hvalid := c.valid
  simp only [UInt32.isValidChar, Nat.isValidChar] at hvalid
  omega

/-- A smaller number has smaller leading digits, or the same and a smaller last one. -/
theorem div_lt_div_or_mod_lt_mod {m n : ℕ} (h : m < n) (base : ℕ) :
    m / base < n / base ∨ m / base = n / base ∧ m % base < n % base := by
  rcases Nat.lt_or_eq_of_le (Nat.div_le_div_right (c := base) (Nat.le_of_lt h)) with hlt | heq
  · exact .inl hlt
  · have hm := Nat.div_add_mod m base
    have hn := Nat.div_add_mod n base
    rw [heq] at hm
    exact .inr ⟨heq, by omega⟩

/-- A smaller character has smaller bytes, whatever follows them. -/
theorem utf8EncodeChar_append_lt {c d : Char} (h : c < d) (front back : List UInt8) :
    String.utf8EncodeChar c ++ front < String.utf8EncodeChar d ++ back := by
  have hcode : c.val.toNat < d.val.toNat := h
  have hbound := toNat_val_lt d
  have hlast := div_lt_div_or_mod_lt_mod hcode 64
  have hthird (hlt : c.val.toNat / 64 < d.val.toNat / 64) := div_lt_div_or_mod_lt_mod hlt 64
  have hsecond (hlt : c.val.toNat / 4096 < d.val.toNat / 4096) := div_lt_div_or_mod_lt_mod hlt 64
  simp only [Nat.div_div_eq_div_mul, Nat.reduceMul] at hthird hsecond
  -- One goal for each pair of lengths; all bytes stay below 256.
  simp only [String.utf8EncodeChar]
  repeat' split
  all_goals
    simp (disch := omega) only [List.cons_append, List.nil_append, List.cons_lt_cons_iff,
      UInt8.lt_iff_toNat_lt, ← UInt8.toNat_inj, UInt8.toNat_ofNat', Nat.reducePow, Nat.mod_eq_of_lt]
    omega

theorem bytes_lt_of_lt {a b : List Char} (h : a < b) : bytes a < bytes b := by
  induction a generalizing b with
  | nil =>
    cases b with
    | nil => exact absurd h (List.lt_irrefl [])
    | cons d b =>
      obtain ⟨first, rest, hbytes⟩ := List.exists_cons_of_ne_nil (String.utf8EncodeChar_ne_nil (c := d))
      rw [bytes_cons, hbytes]
      exact List.nil_lt_cons _ _
  | cons c a ih =>
    cases b with
    | nil => exact absurd h (List.not_lt_nil _)
    | cons d b =>
      rw [bytes_cons, bytes_cons]
      rcases List.cons_lt_cons_iff.mp h with hlt | ⟨rfl, hrest⟩
      · exact utf8EncodeChar_append_lt hlt _ _
      · exact List.append_left_lt (ih hrest)

/-- Bytes are ordered as the texts that they are the bytes of. -/
theorem bytes_lt_iff {a b : List Char} : bytes a < bytes b ↔ a < b := by
  refine ⟨fun h => ?_, bytes_lt_of_lt⟩
  by_contra hnot
  by_cases hgt : b < a
  · exact List.lt_asymm h (bytes_lt_of_lt hgt)
  · obtain rfl : a = b := List.le_antisymm hgt hnot
    exact List.lt_irrefl _ h

/-- No two texts have the same bytes. -/
theorem bytes_inj {a b : List Char} : bytes a = bytes b ↔ a = b := by
  constructor
  · intro h
    have hnot {c d : List Char} (heq : bytes c = bytes d) : ¬ c < d := by
      intro hlt
      have hbytes := bytes_lt_of_lt hlt
      rw [heq] at hbytes
      exact List.lt_irrefl _ hbytes
    exact List.le_antisymm (hnot h.symm) (hnot h)
  · exact congrArg bytes

end TreeLayout.Text
