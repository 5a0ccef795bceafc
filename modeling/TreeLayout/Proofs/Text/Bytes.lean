import Mathlib.Data.List.Induction
import TreeLayout.Text.Basic

/-!
# Cutting bytes where characters end

The bytes of a text determine its characters, also piecewise: where the bytes of one text start or
end with the bytes of another, the texts do so themselves. The byte of a character of one byte, such as
a slash or a line feed, occurs in no other character. Matching works on bytes and capturing on characters,
files hold bytes and their lines are texts; these facts relate the two.
-/

namespace TreeLayout.Text

@[simp] theorem bytes_cons (c : Char) (text : List Char) :
    bytes (c :: text) = String.utf8EncodeChar c ++ bytes text := by
  simp [bytes]

/-- The first character of a text can be read off its bytes. -/
theorem eq_of_utf8EncodeChar_append_eq {c d : Char} {x y : List UInt8}
    (h : String.utf8EncodeChar c ++ x = String.utf8EncodeChar d ++ y) : c = d := by
  have hdecode (e : Char) (z : List UInt8) :
      ByteArray.utf8DecodeChar? (String.utf8EncodeChar e ++ z).toByteArray 0 = some e := by
    rw [List.toByteArray_append, ByteArray.utf8DecodeChar?_utf8EncodeChar_append]
  have hc := hdecode c x
  rw [h, hdecode d y] at hc
  exact (Option.some.inj hc).symm

/-- Only the first byte of a character can start a character, so no character's bytes end in the
bytes of another. -/
theorem eq_of_append_utf8EncodeChar_eq {c d : Char} {x y : List UInt8}
    (h : x ++ String.utf8EncodeChar c = y ++ String.utf8EncodeChar d) : c = d ∧ x = y := by
  -- The bytes of both end at the same place, so the shorter ones would start within the longer.
  have hstart (e f : Char) (z : List UInt8)
      (hz : String.utf8EncodeChar e = z ++ String.utf8EncodeChar f) : z = [] := by
    have hpos : 0 < (String.utf8EncodeChar f).length := by
      rw [String.length_utf8EncodeChar]
      exact f.utf8Size_pos
    have hlen : z.length < (String.utf8EncodeChar e).length := by
      rw [hz, List.length_append]
      omega
    have hbyte : (String.utf8EncodeChar e)[z.length] = (String.utf8EncodeChar f)[0] := by
      simp [hz]
    have hfirst : ((String.utf8EncodeChar e)[z.length]).IsUTF8FirstByte := by
      rw [hbyte]
      exact UInt8.isUTF8FirstByte_getElem_utf8EncodeChar.mpr rfl
    exact List.eq_nil_of_length_eq_zero (UInt8.isUTF8FirstByte_getElem_utf8EncodeChar.mp hfirst)
  rcases List.append_eq_append_iff.mp h with ⟨z, hy, hc⟩ | ⟨z, hx, hd⟩
  · obtain rfl := hstart c d z hc
    rw [List.append_nil] at hy
    exact ⟨eq_of_utf8EncodeChar_append_eq (x := []) (y := []) (by simpa using hc), hy.symm⟩
  · obtain rfl := hstart d c z hd
    rw [List.append_nil] at hx
    exact ⟨(eq_of_utf8EncodeChar_append_eq (x := []) (y := []) (by simpa using hd)).symm, hx⟩

/-- Bytes that start with the bytes of a text belong to a text that starts with it. -/
theorem exists_of_bytes_append_eq {front text : List Char} {x : List UInt8}
    (h : bytes front ++ x = bytes text) : ∃ rest, text = front ++ rest ∧ x = bytes rest := by
  induction front generalizing text with
  | nil => exact ⟨text, rfl, h⟩
  | cons c front ih =>
    rw [bytes_cons, List.append_assoc] at h
    cases text with
    | nil => exact absurd (List.append_eq_nil_iff.mp h).1 String.utf8EncodeChar_ne_nil
    | cons d text =>
      rw [bytes_cons] at h
      obtain rfl := eq_of_utf8EncodeChar_append_eq h
      obtain ⟨rest, rfl, hx⟩ := ih (List.append_cancel_left h)
      exact ⟨rest, rfl, hx⟩

/-- Bytes that end with the bytes of a text belong to a text that ends with it. -/
theorem exists_of_append_bytes_eq {back text : List Char} {x : List UInt8}
    (h : x ++ bytes back = bytes text) : ∃ rest, text = rest ++ back ∧ x = bytes rest := by
  induction back using List.reverseRecOn generalizing text with
  | nil => exact ⟨text, (List.append_nil text).symm, by simpa using h⟩
  | append_singleton back c ih =>
    rw [bytes_append, ← List.append_assoc, bytes_cons, bytes_nil, List.append_nil] at h
    cases text using List.reverseRecOn with
    | nil => exact absurd (List.append_eq_nil_iff.mp h).2 String.utf8EncodeChar_ne_nil
    | append_singleton text d =>
      rw [bytes_append, bytes_cons, bytes_nil, List.append_nil] at h
      obtain ⟨rfl, hrest⟩ := eq_of_append_utf8EncodeChar_eq h
      obtain ⟨rest, rfl, hx⟩ := ih hrest
      exact ⟨rest, by simp, hx⟩

/-- The bytes of an array from some place on, behind those that have been read. -/
theorem toList_loop (contents : ByteArray) (place : Nat) (read : List UInt8) :
    ByteArray.toList.loop contents place read = read.reverse ++ contents.data.toList.drop place := by
  induction hn : contents.size - place generalizing place read with
  | zero =>
    have hend : contents.data.toList.length ≤ place := by
      rw [Array.length_toList]
      exact Nat.sub_eq_zero_iff_le.mp hn
    rw [ByteArray.toList.loop, if_neg (by omega), List.drop_eq_nil_of_le hend, List.append_nil]
  | succ n ih =>
    have hplace : place < contents.size := by omega
    have hnext : place < contents.data.toList.length := hplace
    have hbyte : contents.get! place = contents.data.toList[place] :=
      getElem!_pos contents.data place hplace
    rw [ByteArray.toList.loop, if_pos hplace, ih (place + 1) _ (by omega),
      List.drop_eq_getElem_cons hnext, hbyte, List.reverse_cons, List.append_assoc]
    rfl

/-- The bytes of an encoded text. -/
theorem toList_toUTF8 (text : String) : text.toUTF8.toList = bytes text.toList := by
  have hbytes : text.toUTF8 = (bytes text.toList).toByteArray := String.utf8Encode_toList.symm
  rw [hbytes, ByteArray.toList, toList_loop, List.data_toByteArray]
  rfl

/-- A character takes at least one byte. -/
theorem length_le_utf8ByteSize (text : String) : text.length ≤ text.utf8ByteSize := by
  induction text using String.push_induction with
  | empty => exact Nat.le_refl 0
  | push text c ih =>
    have hpos := c.utf8Size_pos
    rw [String.length_push, String.utf8ByteSize_push]
    omega

theorem bytes_eq_nil_iff {text : List Char} : bytes text = [] ↔ text = [] := by
  cases text <;> simp [String.utf8EncodeChar_ne_nil]

section SingleByte

variable {a : Char} {b : UInt8} (hsingle : String.utf8EncodeChar a = [b])

include hsingle

/-- The byte of a character of one byte is part of no other character. -/
theorem notMem_utf8EncodeChar {c : Char} (h : c ≠ a) : b ∉ String.utf8EncodeChar c := by
  intro hmem
  obtain ⟨i, hi, hbyte⟩ := List.getElem_of_mem hmem
  have hlength : 0 < (String.utf8EncodeChar a).length := by simp [hsingle]
  have hstart : (String.utf8EncodeChar a)[0] = b := by simp [hsingle]
  have hfirst : ((String.utf8EncodeChar c)[i]).IsUTF8FirstByte := by
    rw [hbyte, ← hstart]
    exact UInt8.isUTF8FirstByte_getElem_utf8EncodeChar.mpr rfl
  obtain rfl := UInt8.isUTF8FirstByte_getElem_utf8EncodeChar.mp hfirst
  obtain ⟨first, rest, hbytes⟩ :=
    List.exists_cons_of_ne_nil (String.utf8EncodeChar_ne_nil (c := c))
  simp only [hbytes, List.getElem_cons_zero] at hbyte
  have hsplit : String.utf8EncodeChar c ++ [] = String.utf8EncodeChar a ++ rest := by
    rw [hsingle, hbytes, hbyte, List.append_nil, List.singleton_append]
  exact h (eq_of_utf8EncodeChar_append_eq hsplit)

/-- A character of one byte stands in a text as often as its byte in the bytes of the text. -/
theorem count_bytes (text : List Char) : (bytes text).count b = text.count a := by
  induction text with
  | nil => rfl
  | cons c text ih =>
    rw [bytes_cons, List.count_append, ih]
    by_cases h : c = a
    · subst h
      simp [hsingle, Nat.add_comm]
    · rw [List.count_eq_zero_of_not_mem (notMem_utf8EncodeChar hsingle h), List.count_cons_of_ne h,
        Nat.zero_add]

theorem notMem_bytes {text : List Char} (h : a ∉ text) : b ∉ bytes text := by
  rw [← List.count_eq_zero, count_bytes hsingle]
  exact List.count_eq_zero_of_not_mem h

end SingleByte

/-- A slash is one byte. -/
theorem utf8EncodeChar_slash : String.utf8EncodeChar '/' = [slashByte] := by decide

/-- The byte of a slash is part of no other character. -/
theorem slashByte_notMem_utf8EncodeChar {c : Char} (h : c ≠ '/') :
    slashByte ∉ String.utf8EncodeChar c := notMem_utf8EncodeChar utf8EncodeChar_slash h

/-- A text without a slash has no byte of a slash. -/
theorem slashByte_notMem_bytes {text : List Char} (h : '/' ∉ text) : slashByte ∉ bytes text :=
  notMem_bytes utf8EncodeChar_slash h

end TreeLayout.Text
