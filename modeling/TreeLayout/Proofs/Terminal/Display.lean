import Mathlib.Data.List.TakeWhile
import TreeLayout.Terminal.Painted

/-!
# What a terminal shows

A terminal takes control sequences out of the text that it is sent and shows the other characters, each
with the sequences in force at its place: those sent since the last reset. Where no piece of painted text
holds an escape character, the control sequences of the coloured text are those that its pieces ask for,
and without them it is the plain text (`erase_colored`).

Painted text is put together from parts, each of which ends reset and breaks no line while a sequence is in
force (`BreaksReset`), and so does the whole.
-/

namespace TreeLayout.Terminal

/-- What a terminal takes a text for: characters to be shown, and control sequences with some digits. -/
inductive Signal where
  | char (c : Char)
  | control (digits : List Char)
deriving DecidableEq, Repr

/-- The character that a signal shows. -/
def Signal.character? : Signal → Option Char
  | .char c => some c
  | .control _ => none

/-- The digits of the control sequence that a text starts with, and the text after it. -/
def sequence? : List Char → Option (List Char × List Char)
  | '\x1b' :: '[' :: text =>
    match text.takeWhile Char.isDigit, text.dropWhile Char.isDigit with
    | first :: digits, 'm' :: rest => some (first :: digits, rest)
    | _, _ => none
  | _ => none

theorem length_lt_of_sequence? {text digits rest : List Char} (h : sequence? text = some (digits, rest)) :
    rest.length < text.length := by
  unfold sequence? at h
  split at h
  · rename_i text
    split at h
    · rename_i hrest
      cases h
      have hle := (List.dropWhile_suffix (l := text) Char.isDigit).length_le
      rw [hrest, List.length_cons] at hle
      rw [List.length_cons, List.length_cons]
      omega
    · cases h
  · cases h

/-- The characters and the control sequences of a text. -/
def signals : List Char → List Signal
  | [] => []
  | c :: text =>
    match _h : sequence? (c :: text) with
    | some (digits, rest) => .control digits :: signals rest
    | none => .char c :: signals text
termination_by text => text.length
decreasing_by
  · exact length_lt_of_sequence? _h
  · exact Nat.lt_succ_self _

/-- A text without its control sequences. -/
def erase (text : List Char) : List Char := (signals text).filterMap Signal.character?

/-- The control sequences in force after one more; the sequence with zero resets the terminal. -/
def force (inForce : List (List Char)) (digits : List Char) : List (List Char) :=
  if digits = ['0'] then [] else digits :: inForce

/-- The characters that a terminal shows, each with the control sequences in force, the latest first. -/
def shown (inForce : List (List Char)) : List Signal → List (Char × List (List Char))
  | [] => []
  | .char c :: rest => (c, inForce) :: shown inForce rest
  | .control digits :: rest => shown (force inForce digits) rest

/-- The control sequences in force after a text. -/
def left (inForce : List (List Char)) : List Signal → List (List Char)
  | [] => inForce
  | .char _ :: rest => left inForce rest
  | .control digits :: rest => left (force inForce digits) rest

section Reading

variable {c : Char} {text : List Char}

theorem signals_cons_of_ne (h : c ≠ '\x1b') (text : List Char) :
    signals (c :: text) = .char c :: signals text := by
  have hnone : sequence? (c :: text) = none := by
    unfold sequence?
    split
    · rename_i heq
      exact absurd (List.cons.inj heq).1 h
    · rfl
  rw [signals]
  split
  · rename_i found
    cases found.symm.trans hnone
  · rfl

/-- Text without escape characters is shown. -/
theorem signals_append (h : '\x1b' ∉ text) (rest : List Char) :
    signals (text ++ rest) = text.map .char ++ signals rest := by
  induction text with
  | nil => rfl
  | cons c text ih =>
    obtain ⟨hc, htext⟩ := not_or.mp (List.mem_cons.not.mp h)
    rw [List.cons_append, signals_cons_of_ne (Ne.symm hc), ih htext]
    rfl

/-- A written control sequence is read as one. -/
theorem signals_sequence {number : String} (hdigits : number.toList.all Char.isDigit = true)
    (hne : number.toList ≠ []) (rest : List Char) :
    signals ((sequence number).toList ++ rest) = .control number.toList :: signals rest := by
  have htext : (sequence number).toList ++ rest =
      '\x1b' :: '[' :: (number.toList ++ 'm' :: rest) := by
    simp [sequence]
  have hsequence : sequence? ('\x1b' :: '[' :: (number.toList ++ 'm' :: rest)) =
      some (number.toList, rest) := by
    obtain ⟨first, digits, hnumber⟩ := List.exists_cons_of_ne_nil hne
    have hall := List.all_eq_true.mp hdigits
    rw [sequence?, List.takeWhile_append_of_pos hall, List.dropWhile_append_of_pos hall]
    simp [hnumber]
  rw [htext, signals]
  split
  · rename_i found
    cases found.symm.trans hsequence
    rfl
  · rename_i found
    cases found.symm.trans hsequence

end Reading

section Showing

variable {inForce : List (List Char)} {first second : List Signal}

/-- All characters are shown. -/
theorem map_fst_shown (inForce : List (List Char)) (received : List Signal) :
    (shown inForce received).map Prod.fst = received.filterMap Signal.character? := by
  induction received generalizing inForce with
  | nil => rfl
  | cons signal received ih =>
    cases signal with
    | char c => exact congrArg (c :: ·) (ih inForce)
    | control digits => exact ih (force inForce digits)

theorem shown_append :
    shown inForce (first ++ second) = shown inForce first ++ shown (left inForce first) second := by
  induction first generalizing inForce with
  | nil => rfl
  | cons signal first ih =>
    cases signal with
    | char c => exact congrArg ((c, inForce) :: ·) ih
    | control digits => exact ih

theorem left_append : left inForce (first ++ second) = left (left inForce first) second := by
  induction first generalizing inForce with
  | nil => rfl
  | cons signal first ih =>
    cases signal with
    | char c => exact ih
    | control digits => exact ih

@[simp]
theorem shown_map_char (text : List Char) :
    shown inForce (text.map .char) = text.map fun c => (c, inForce) := by
  induction text with
  | nil => rfl
  | cons c text ih => exact congrArg ((c, inForce) :: ·) ih

@[simp]
theorem left_map_char (text : List Char) : left inForce (text.map .char) = inForce := by
  induction text with
  | nil => rfl
  | cons c text ih => exact ih

end Showing

namespace Piece

/-- The signals of a piece with colour. -/
def signals : Piece → List Signal
  | .text content => content.toList.map .char
  | .style look =>
    .control ['0'] :: ((if look.bold then [.control ['1']] else []) ++
      (if look.dim then [.control ['2']] else []) ++ (if look.red then [.control ['3', '1']] else []))
  | .reset => [.control ['0']]

/-- Whether a piece holds no escape character. -/
def IsUnescaped : Piece → Prop
  | .text content => '\x1b' ∉ content.toList
  | _ => True

instance : DecidablePred IsUnescaped
  | .text content => inferInstanceAs (Decidable ('\x1b' ∉ content.toList))
  | .style _ => .isTrue trivial
  | .reset => .isTrue trivial

/-- A coloured piece is read as it is meant. -/
theorem signals_colored_append {piece : Piece} (h : piece.IsUnescaped) (rest : List Char) :
    Terminal.signals (piece.colored.toList ++ rest) = piece.signals ++ Terminal.signals rest := by
  have hzero := @signals_sequence "0" rfl (by decide)
  have hone := @signals_sequence "1" rfl (by decide)
  have htwo := @signals_sequence "2" rfl (by decide)
  have hred := @signals_sequence "31" rfl (by decide)
  cases piece with
  | text content => exact signals_append h rest
  | reset => exact hzero rest
  | style look =>
    obtain ⟨bold, dim, red⟩ := look
    simp only [colored, String.toList_append, List.append_assoc, hzero]
    cases bold <;> cases dim <;> cases red <;>
      simp [signals, hone, htwo, hred]

/-- The characters of a piece are those that it has without colour. -/
theorem filterMap_signals (piece : Piece) :
    piece.signals.filterMap Signal.character? = piece.plain.toList := by
  cases piece with
  | text content => simp [signals, plain, List.filterMap_map, Function.comp_def, Signal.character?]
  | reset => rfl
  | style look =>
    obtain ⟨bold, dim, red⟩ := look
    cases bold <;> cases dim <;> cases red <;> rfl

end Piece

section Pieces

variable {pieces : List Piece}

/-- Coloured text is read as its pieces are meant. -/
theorem signals_colored (h : ∀ piece ∈ pieces, piece.IsUnescaped) :
    signals (colored pieces).toList = pieces.flatMap Piece.signals := by
  induction pieces with
  | nil => rw [colored, List.map_nil, String.join_nil, String.toList_empty, signals]; rfl
  | cons piece pieces ih =>
    rw [colored, List.map_cons, String.join_cons, String.toList_append,
      Piece.signals_colored_append (h piece List.mem_cons_self), List.flatMap_cons]
    exact congrArg _ (ih fun other hother => h other (List.mem_cons_of_mem _ hother))

/-- Without colour, painted text is its pieces one after another. -/
theorem toList_plain (pieces : List Piece) :
    (plain pieces).toList = pieces.flatMap fun piece => piece.plain.toList := by
  rw [plain, String.toList_join, List.flatMap_map]

/-- The characters of painted text are those that it has without colour. -/
theorem filterMap_flatMap_signals (pieces : List Piece) :
    (pieces.flatMap Piece.signals).filterMap Signal.character? = (plain pieces).toList := by
  rw [List.filterMap_flatMap, toList_plain]
  simp only [Piece.filterMap_signals]

/-- Without its control sequences, coloured text is the plain text. -/
theorem erase_colored (h : ∀ piece ∈ pieces, piece.IsUnescaped) :
    erase (colored pieces).toList = (plain pieces).toList := by
  rw [erase, signals_colored h, filterMap_flatMap_signals]

end Pieces

/-- Whether painted text ends reset and breaks every line while no sequence is in force, if none is in
force at its start. -/
structure BreaksReset (pieces : List Piece) : Prop where
  left_eq_nil : left [] (pieces.flatMap Piece.signals) = []
  breaks : ∀ inForce, ('\n', inForce) ∈ shown [] (pieces.flatMap Piece.signals) → inForce = []

namespace BreaksReset

theorem nil : BreaksReset [] where
  left_eq_nil := rfl
  breaks _ hmem := absurd hmem List.not_mem_nil

theorem append {first second : List Piece} (hfirst : BreaksReset first) (hsecond : BreaksReset second) :
    BreaksReset (first ++ second) where
  left_eq_nil := by
    rw [List.flatMap_append, left_append, hfirst.left_eq_nil, hsecond.left_eq_nil]
  breaks inForce hmem := by
    rw [List.flatMap_append, shown_append, hfirst.left_eq_nil] at hmem
    rcases List.mem_append.mp hmem with hmem | hmem
    · exact hfirst.breaks inForce hmem
    · exact hsecond.breaks inForce hmem

theorem flatMap {α : Type} {items : List α} {pieces : α → List Piece}
    (h : ∀ item ∈ items, BreaksReset (pieces item)) : BreaksReset (items.flatMap pieces) := by
  induction items with
  | nil => exact nil
  | cons item items ih =>
    rw [List.flatMap_cons]
    exact (h item List.mem_cons_self).append
      (ih fun other hother => h other (List.mem_cons_of_mem _ hother))

theorem reset : BreaksReset [.reset] where
  left_eq_nil := rfl
  breaks _ hmem := absurd hmem List.not_mem_nil

/-- Text without a style may break lines anywhere. -/
theorem text (content : String) : BreaksReset [.text content] where
  left_eq_nil := by
    simp [Piece.signals]
  breaks inForce hmem := by
    simp only [List.flatMap_singleton, Piece.signals, shown_map_char, List.mem_map, Prod.mk.injEq] at hmem
    obtain ⟨c, -, -, hnil⟩ := hmem
    exact hnil.symm

/-- Text in a style breaks no line if it holds no line break, and the reset after it ends the style. -/
theorem styled (look : Style) {content : String} (h : '\n' ∉ content.toList) :
    BreaksReset [.style look, .text content, .reset] where
  left_eq_nil := by
    simp only [List.flatMap_cons, left_append]
    rfl
  breaks inForce hmem := by
    have hchars : '\n' ∈ (plain [.style look, .text content, .reset]).toList := by
      rw [← filterMap_flatMap_signals, ← map_fst_shown []]
      exact List.mem_map_of_mem (f := Prod.fst) hmem
    simp [plain, Piece.plain, h] at hchars

end BreaksReset

end TreeLayout.Terminal
