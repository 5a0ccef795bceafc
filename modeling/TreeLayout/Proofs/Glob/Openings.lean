import TreeLayout.Proofs.Glob.Parts
import TreeLayout.Proofs.Text.Segments

/-!
# Tokens of a plain glob, segment by segment

What stands before a segment of a glob is nothing, a slash, or stars together with the slashes around
them. A segment of two stars only changes what stands before the next one, so stars in a row are read
as one. This gives the tokens of every plain glob by recursion on its segments (`parse_join`).
-/

namespace TreeLayout.Glob

open Text

/-- The segment that stands for any number of segments. -/
def twoStars : List Char := ['*', '*']

/-- What stands before a segment. -/
inductive Opening where
  | start
  | slash
  | leadingStars
  | innerStars
deriving DecidableEq, Repr

namespace Opening

/-- An opening as it is written. -/
def text : Opening → List Char
  | start => []
  | slash => ['/']
  | leadingStars => ['*', '*', '/']
  | innerStars => ['/', '*', '*', '/']

/-- The tokens of an opening. -/
def tokens : Opening → List Token
  | start => []
  | slash => [.literal '/']
  | leadingStars => [.leadingStars]
  | innerStars => [.innerStars]

/-- The opening with a segment of two stars behind it. -/
def withStars : Opening → Opening
  | start | leadingStars => leadingStars
  | slash | innerStars => innerStars

/-- The token of an opening with two stars behind it at the end of a glob. -/
def lastStars : Opening → Token
  | start | leadingStars => .leadingStars
  | slash | innerStars => .trailingStars

theorem text_boundary (opening : Opening) :
    opening.text = [] ∨ opening.text.getLast? = some '/' := by
  cases opening with
  | start => exact .inl rfl
  | slash | leadingStars | innerStars => exact .inr rfl

theorem parse_text (opening : Opening) : parse false opening.text = .ok opening.tokens := by
  cases opening <;> rfl

/-- Two stars at the end of a glob. -/
theorem parse_lastStars (opening : Opening) :
    parse false (opening.text ++ twoStars) = .ok [opening.lastStars] := by
  cases opening <;> rfl

/-- Two stars and a slash in the middle of a glob; after other stars they add nothing. -/
theorem parse_withStars (opening : Opening) (rest : List Char) :
    parse false (opening.text ++ (twoStars ++ '/' :: rest)) =
      parse false (opening.withStars.text ++ rest) := by
  cases opening with
  | start | slash => rfl
  | leadingStars =>
    change parse false (['*', '*', '/', '*', '*', '/'] ++ rest) = parse false (['*', '*', '/'] ++ rest)
    rw [Reader.parse_eq_read, Reader.parse_eq_read, Reader.read_append rfl, Reader.read_append rfl]
    rfl
  | innerStars =>
    change parse false (['/', '*', '*', '/', '*', '*', '/'] ++ rest) =
      parse false (['/', '*', '*', '/'] ++ rest)
    rw [Reader.parse_eq_read, Reader.parse_eq_read, Reader.read_append rfl, Reader.read_append rfl]
    rfl

end Opening

/-- The tokens of the segments of a plain glob. -/
def segmentTokens : Opening → List (List Char) → List Token
  | opening, [] => opening.tokens
  | opening, [piece] =>
    if piece = twoStars then [opening.lastStars] else opening.tokens ++ piece.map Token.ofChar
  | opening, piece :: next :: rest =>
    if piece = twoStars then segmentTokens opening.withStars (next :: rest)
    else opening.tokens ++ piece.map Token.ofChar ++ segmentTokens .slash (next :: rest)

/-- Plain segments behind an opening are read one after the other. -/
theorem parse_text_append_join (opening : Opening) {pieces : List (List Char)} (hne : pieces ≠ [])
    (h : ∀ piece ∈ pieces, IsPlain piece ∧ '/' ∉ piece) :
    parse false (opening.text ++ join '/' pieces) = .ok (segmentTokens opening pieces) := by
  fun_induction segmentTokens opening pieces with
  | case1 => exact absurd rfl hne
  | case2 opening => exact opening.parse_lastStars
  | case3 opening piece hstars =>
    obtain ⟨hplain, hslash⟩ := h piece List.mem_cons_self
    have hend : parse false [] = .ok [] := rfl
    have hparse := parse_append_segment opening.text_boundary opening.parse_text hplain hslash hstars
      (.inl rfl)
    rw [hend, List.append_nil] at hparse
    simpa [join, Except.map] using hparse
  | case4 opening next rest ih =>
    have hrest := ih (List.cons_ne_nil next rest) fun piece hpiece =>
      h piece (List.mem_cons_of_mem _ hpiece)
    rw [← hrest, join, opening.parse_withStars]
    exact List.cons_ne_nil next rest
  | case5 opening piece next rest hstars ih =>
    obtain ⟨hplain, hslash⟩ := h piece List.mem_cons_self
    have hrest : parse false ('/' :: join '/' (next :: rest)) =
        .ok (segmentTokens .slash (next :: rest)) :=
      ih (List.cons_ne_nil next rest) fun piece hpiece => h piece (List.mem_cons_of_mem _ hpiece)
    have htrail : '/' :: join '/' (next :: rest) = [] ∨
        ('/' :: join '/' (next :: rest)).head? = some '/' := .inr rfl
    have hparse := parse_append_segment opening.text_boundary opening.parse_text hplain hslash hstars
      htrail
    rw [hrest] at hparse
    rw [join]
    · simpa [Except.map] using hparse
    · exact List.cons_ne_nil next rest

/-- The tokens of a plain glob are those of its segments. -/
theorem parse_of_isPlain {text : List Char} (hplain : IsPlain text) :
    parse false text = .ok (segmentTokens .start (segments text)) := by
  have hpieces : ∀ piece ∈ split '/' text, IsPlain piece ∧ '/' ∉ piece := by
    intro piece hpiece
    refine ⟨fun c hc => hplain c ?_, notMem_of_mem_split hpiece⟩
    obtain ⟨front, back, hsplit⟩ := List.append_of_mem hpiece
    rw [← join_split '/' text, hsplit, join_append_cons]
    simp [hc]
  have h := parse_text_append_join .start (split_ne_nil text) hpieces
  rwa [join_split] at h

/-- A plain text is a glob. -/
theorem exists_parse_of_isPlain {text : List Char} (hplain : IsPlain text) :
    ∃ tokens, parse false text = .ok tokens := ⟨_, parse_of_isPlain hplain⟩

/-- Segments none of which is two stars are read character by character. -/
theorem segmentTokens_of_notMem {opening : Opening} {pieces : List (List Char)}
    (h : twoStars ∉ pieces) :
    segmentTokens opening pieces = opening.tokens ++ (join '/' pieces).map Token.ofChar := by
  fun_induction segmentTokens opening pieces with
  | case1 opening => exact (List.append_nil opening.tokens).symm
  | case2 opening => exact absurd List.mem_cons_self h
  | case3 opening piece => rfl
  | case4 opening => exact absurd List.mem_cons_self h
  | case5 opening piece next rest hstars ih =>
    have hrest := ih fun hmem => h (List.mem_cons_of_mem piece hmem)
    have hslash : Token.ofChar '/' = .literal '/' := rfl
    have hjoin : join '/' (piece :: next :: rest) = piece ++ '/' :: join '/' (next :: rest) := by
      rw [join]
      exact List.cons_ne_nil next rest
    rw [hrest, hjoin]
    simp [Opening.tokens, hslash]

/-- A plain text without a recursive wildcard is read character by character. -/
theorem parse_chars {text : List Char} (hplain : IsPlain text)
    (hstars : ['*', '*'] ∉ segments text) : parse false text = .ok (text.map Token.ofChar) := by
  rw [parse_of_isPlain hplain, segmentTokens_of_notMem hstars, segments, join_split]
  rfl

end TreeLayout.Glob
