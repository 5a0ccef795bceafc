import Mathlib.Data.List.Infix
import TreeLayout.Glob.Basic
import TreeLayout.Proofs.Glob.Words
import TreeLayout.Proofs.Text.Lines

/-!
# Matching plain globs segment by segment

A segment of a plain glob matches one segment of a path, byte by byte, and a segment of two stars
matches any number of them. `matchesPath` is this reading of a glob, by recursion on its segments, and
the words of the glob's tokens are exactly the paths that it accepts (`isMatch_eq_matchesPath`).
-/

namespace TreeLayout.Glob

open Text Regular

section Reading

/-- Whether a segment of a plain glob matches a name: `*` stands for any bytes, `?` for one byte, and
every other character for its own bytes. -/
def matchesName : List Char → List UInt8 → Bool
  | [], name => name.isEmpty
  | '*' :: piece, name => name.tails.any (matchesName piece)
  | '?' :: piece, name => !name.isEmpty && matchesName piece name.tail
  | c :: piece, name =>
    (String.utf8EncodeChar c).isPrefixOf name &&
      matchesName piece (name.drop (String.utf8EncodeChar c).length)

/-- Whether segments of a plain glob match names: two stars stand for any number of names, and every
other segment for one name. Two stars at the end stand for one name at least, unless the glob holds
only such segments. -/
def matchesSegments (onlyStars : Bool) : List (List Char) → List (List UInt8) → Bool
  | [], names => names.isEmpty
  | piece :: pieces, names =>
    if piece = twoStars then
      if pieces = [] then onlyStars || !names.isEmpty
      else names.tails.any (matchesSegments onlyStars pieces)
    else
      match names with
      | [] => false
      | name :: rest => matchesName piece name && matchesSegments onlyStars pieces rest

/-- Whether a plain glob matches a path, segment by segment. -/
def matchesPath (text path : List Char) : Bool :=
  matchesSegments ((segments text).all (· = twoStars)) (segments text) ((segments path).map bytes)

variable {onlyStars : Bool} {piece : List Char} {pieces : List (List Char)}
  {names : List (List UInt8)}

/-- A segment other than two stars stands for one name. -/
theorem matchesSegments_cons (h : piece ≠ twoStars) :
    matchesSegments onlyStars (piece :: pieces) names = true ↔ ∃ name later,
      names = name :: later ∧ matchesName piece name = true ∧
        matchesSegments onlyStars pieces later = true := by
  cases names with
  | nil => simp [matchesSegments, h]
  | cons name later => simp [matchesSegments, h]

/-- Two stars before other segments stand for any number of names. -/
theorem matchesSegments_twoStars (h : pieces ≠ []) :
    matchesSegments onlyStars (twoStars :: pieces) names = true ↔ ∃ skipped later,
      names = skipped ++ later ∧ matchesSegments onlyStars pieces later = true := by
  simp only [matchesSegments, if_true, h, if_false, List.any_eq_true, List.mem_tails]
  constructor
  · intro hexists
    obtain ⟨later, ⟨skipped, rfl⟩, hlater⟩ := hexists
    exact ⟨skipped, later, rfl, hlater⟩
  · intro hexists
    obtain ⟨skipped, later, rfl, hlater⟩ := hexists
    exact ⟨later, ⟨skipped, rfl⟩, hlater⟩

/-- Segments of two stars alone match all names there are. -/
theorem matchesSegments_of_forall (hne : pieces ≠ []) (h : ∀ piece ∈ pieces, piece = twoStars)
    (names : List (List UInt8)) : matchesSegments true pieces names = true := by
  induction pieces with
  | nil => exact absurd rfl hne
  | cons piece pieces ih =>
    obtain ⟨rfl, hrest⟩ := List.forall_mem_cons.mp h
    by_cases hpieces : pieces = []
    · simp [matchesSegments, hpieces]
    · exact (matchesSegments_twoStars hpieces).mpr ⟨[], names, rfl, ih hpieces hrest⟩

end Reading

section Name

theorem contains_withinSegment {b : UInt8} : withinSegment.contains b = true ↔ b ≠ slashByte := by
  have hsingle : withinSegment.contains b = !(ByteSet.single slashByte).contains b := by
    simp [ByteSet.contains, withinSegment, ByteSet.single]
  rw [hsingle, ByteSet.contains_single, Bool.not_eq_true', beq_eq_false_iff_ne]
  exact ne_comm

/-- Every word without a slash is a run within a segment. -/
theorem matches_star_withinSegment {word : List UInt8} :
    (Regular.star (.byte withinSegment)).Matches word ↔ slashByte ∉ word := by
  refine ⟨slashByte_notMem_of_star, fun h => ?_⟩
  induction word with
  | nil => exact .done
  | cons b word ih =>
    obtain ⟨hb, hword⟩ := not_or.mp (List.mem_cons.not.mp h)
    exact .more (u := [b]) (.byte (contains_withinSegment.mpr (Ne.symm hb))) (ih hword)

/-- The words of a segment are the names that it matches. -/
theorem matchesName_iff (piece : List Char) {name : List UInt8} (h : slashByte ∉ name) :
    matchesName piece name = true ↔ (concat (piece.map Token.ofChar)).Matches name := by
  induction piece generalizing name with
  | nil => simp [matchesName]
  | cons c piece ih =>
    have hconcat : (concat ((c :: piece).map Token.ofChar)).Matches name ↔
        ∃ u v, (Token.ofChar c).toRegular.Matches u ∧
          (concat (piece.map Token.ofChar)).Matches v ∧ name = u ++ v := matches_concat_cons
    have hparts {u v : List UInt8} (hcut : name = u ++ v) : slashByte ∉ u ∧ slashByte ∉ v := by
      rw [hcut] at h
      exact not_or.mp (List.mem_append.not.mp h)
    rw [hconcat]
    by_cases hstar : c = '*'
    · subst hstar
      rw [matchesName, List.any_eq_true]
      constructor
      · intro hexists
        obtain ⟨later, hlater, hpiece⟩ := hexists
        obtain ⟨run, hcut⟩ := (List.mem_tails _ _).mp hlater
        obtain ⟨hrun, hrest⟩ := hparts hcut.symm
        exact ⟨run, later, matches_star_withinSegment.mpr hrun, (ih hrest).mp hpiece, hcut.symm⟩
      · intro hexists
        obtain ⟨run, later, -, hpiece, hcut⟩ := hexists
        exact ⟨later, (List.mem_tails _ _).mpr ⟨run, hcut.symm⟩,
          (ih (hparts hcut).2).mpr hpiece⟩
    by_cases hmark : c = '?'
    · subst hmark
      have htoken (u : List UInt8) : (Token.ofChar '?').toRegular.Matches u ↔
          ∃ b, b ≠ slashByte ∧ u = [b] := by
        simp only [← contains_withinSegment]
        exact matches_byte
      simp only [htoken]
      cases name with
      | nil => simp [matchesName]
      | cons b name =>
        obtain ⟨hb, hname⟩ := not_or.mp (List.mem_cons.not.mp h)
        simp [matchesName, ih hname, Ne.symm hb]
    · have htoken : (Token.ofChar c).toRegular = .literal (String.utf8EncodeChar c) := by
        unfold Token.ofChar
        split
        · exact absurd rfl hmark
        · exact absurd rfl hstar
        · rfl
      have hstep : matchesName (c :: piece) name = ((String.utf8EncodeChar c).isPrefixOf name &&
          matchesName piece (name.drop (String.utf8EncodeChar c).length)) := by
        rw [matchesName]
        · exact hstar
        · exact hmark
      simp only [htoken, matches_literal]
      rw [hstep, Bool.and_eq_true, List.isPrefixOf_iff_prefix]
      constructor
      · intro hpiece
        obtain ⟨⟨later, hcut⟩, hlater⟩ := hpiece
        rw [← hcut, List.drop_left] at hlater
        exact ⟨_, later, rfl, (ih (hparts hcut.symm).2).mp hlater, hcut.symm⟩
      · intro hexists
        obtain ⟨_, later, rfl, hlater, hcut⟩ := hexists
        refine ⟨⟨later, hcut.symm⟩, ?_⟩
        rw [hcut, List.drop_left]
        exact (ih (hparts hcut).2).mpr hlater

/-- A segment matches itself. -/
theorem matchesName_self {piece : List Char} (h : '/' ∉ piece) :
    matchesName piece (bytes piece) = true :=
  (matchesName_iff piece (slashByte_notMem_bytes h)).mpr (matches_self piece)

end Name

section Cut

/-- Names with a slash before each. -/
def slashed (names : List (List UInt8)) : List UInt8 := names.flatMap (slashByte :: ·)

theorem slashed_cons (name : List UInt8) (names : List (List UInt8)) :
    slashed (name :: names) = slashByte :: (name ++ slashed names) := by simp [slashed]

theorem slashed_append (front back : List (List UInt8)) :
    slashed (front ++ back) = slashed front ++ slashed back := List.flatMap_append

theorem slashed_boundary (names : List (List UInt8)) :
    slashed names = [] ∨ (slashed names).head? = some slashByte := head?_flatMap_separator names

/-- The bytes of a path behind a slash are its names. -/
theorem cons_bytes (path : List Char) :
    slashByte :: bytes path = slashed ((segments path).map bytes) := by
  rw [← split_bytes, slashed, flatMap_separator_split]

/-- Names are cut at a slash between two of them. -/
theorem exists_of_slashed_eq {names : List (List UInt8)} (hnames : ∀ name ∈ names, slashByte ∉ name)
    {front back : List UInt8} (h : slashed names = front ++ slashByte :: back) :
    ∃ skipped name later, names = skipped ++ name :: later ∧ front = slashed skipped ∧
      back = name ++ slashed later := by
  induction names generalizing front with
  | nil => simp [slashed] at h
  | cons name names ih =>
    obtain ⟨hname, hrest⟩ := List.forall_mem_cons.mp hnames
    rw [slashed_cons] at h
    cases front with
    | nil => exact ⟨[], name, names, rfl, rfl, (List.cons.inj h).2.symm⟩
    | cons b front =>
      obtain ⟨rfl, hcut⟩ := List.cons.inj h
      -- The first name holds no slash, so the cut is behind it.
      rcases List.append_eq_append_iff.mp hcut with ⟨rest, rfl, hlater⟩ | ⟨rest, rfl, hlater⟩
      · obtain ⟨skipped, first, later, rfl, rfl, rfl⟩ := ih hrest hlater
        exact ⟨name :: skipped, first, later, rfl, (slashed_cons name skipped).symm, rfl⟩
      · cases rest with
        | nil =>
          have hstart : slashed names = [] ++ slashByte :: back := hlater.symm
          obtain ⟨skipped, first, later, rfl, hskipped, rfl⟩ := ih hrest hstart
          refine ⟨front :: skipped, first, later, by simp, ?_, rfl⟩
          rw [slashed_cons, ← hskipped, List.append_nil]
        | cons c rest =>
          obtain ⟨rfl, -⟩ := List.cons.inj hlater
          exact absurd (by simp) hname

/-- A word is cut at its first slash in one way. -/
theorem eq_of_append_eq {u v name rest : List UInt8} (hu : slashByte ∉ u) (hname : slashByte ∉ name)
    (hv : v = [] ∨ v.head? = some slashByte) (hrest : rest = [] ∨ rest.head? = some slashByte)
    (h : u ++ v = name ++ rest) : u = name ∧ v = rest := by
  have hfirst {x y : List UInt8} (hx : slashByte ∉ x) (hy : y = [] ∨ y.head? = some slashByte) :
      before slashByte (x ++ y) = x := by
    rcases hy with rfl | hy
    · rw [List.append_nil, before_of_notMem hx]
    · obtain ⟨back, rfl⟩ := List.head?_eq_some_iff.mp hy
      exact before_append_cons hx back
  obtain rfl : u = name := by rw [← hfirst hu hv, h, hfirst hname hrest]
  exact ⟨rfl, List.append_cancel_left h⟩

end Cut

section Words

variable {opening : Opening} {piece : List Char} {pieces : List (List Char)}
  {names : List (List UInt8)}

/-- Openings that end the segment before them. -/
def Opening.HasSlash (opening : Opening) : Prop := opening = .slash ∨ opening = .innerStars

theorem Opening.HasSlash.withStars (h : opening.HasSlash) : opening.withStars = .innerStars := by
  rcases h with rfl | rfl <;> rfl

theorem Opening.HasSlash.lastStars (h : opening.HasSlash) : opening.lastStars = .trailingStars := by
  rcases h with rfl | rfl <;> rfl

theorem matches_literal_slash {word : List UInt8} :
    (concat [.literal '/']).Matches word ↔ word = [slashByte] := by
  rw [matches_concat_singleton, Token.toRegular, matches_literal, utf8EncodeChar_slash]

theorem matches_innerStars {word : List UInt8} :
    (concat [.innerStars]).Matches word ↔
      ∃ skipped, word = skipped ++ [slashByte] ∧
        (skipped = [] ∨ skipped.head? = some slashByte) := by
  rw [matches_concat_singleton, Token.toRegular, matches_alt, matches_seq]
  simp only [matches_slash, matches_seq, matches_anything, true_and]
  constructor
  · intro h
    rcases h with rfl | ⟨_, _, rfl, ⟨middle, _, rfl, rfl⟩, rfl⟩
    · exact ⟨[], rfl, .inl rfl⟩
    · exact ⟨slashByte :: middle, rfl, .inr rfl⟩
  · intro h
    obtain ⟨skipped, rfl, rfl | hskipped⟩ := h
    · exact .inl rfl
    · obtain ⟨middle, rfl⟩ := List.head?_eq_some_iff.mp hskipped
      exact .inr ⟨_, _, rfl, ⟨middle, _, rfl, rfl⟩, rfl⟩

/-- An opening with a slash skips names: none if it is only a slash, and any number otherwise. -/
theorem Opening.HasSlash.matches_iff (h : opening.HasSlash) {word : List UInt8} :
    (concat opening.tokens).Matches word ↔ ∃ skipped, word = skipped ++ [slashByte] ∧
      if opening = .slash then skipped = []
      else skipped = [] ∨ skipped.head? = some slashByte := by
  rcases h with rfl | rfl
  · rw [Opening.tokens, matches_literal_slash]
    simp
  · exact matches_innerStars

/-- The tokens of segments behind a slash start with a slash. -/
theorem startsWithSlash_segmentTokens (h : opening.HasSlash) (pieces : List (List Char)) :
    (segmentTokens opening pieces).head?.any Token.startsWithSlash := by
  have hfront (back : List Token) : (opening.tokens ++ back).head?.any Token.startsWithSlash := by
    rcases h with rfl | rfl <;> rfl
  fun_induction segmentTokens opening pieces with
  | case1 opening => rcases h with rfl | rfl <;> rfl
  | case2 opening => rw [h.lastStars]; rfl
  | case3 opening piece hstars => exact hfront _
  | case4 opening next rest ih =>
    rw [h.withStars] at ih ⊢
    exact ih (.inr rfl) fun _ => rfl
  | case5 opening piece next rest hstars ih =>
    rw [List.append_assoc]
    exact hfront _

/-- A word of an opening, a segment and what follows is cut into the names that the opening skips,
the name that the segment matches, and the names that follow. -/
theorem matches_piece (h : opening.HasSlash) (hpiece : '/' ∉ piece)
    (hnames : ∀ name ∈ names, slashByte ∉ name) {back : List Token}
    (hback : ∀ word, (concat back).Matches word → word = [] ∨ word.head? = some slashByte) :
    (concat (opening.tokens ++ piece.map Token.ofChar ++ back)).Matches (slashed names) ↔
      ∃ skipped name later, names = skipped ++ name :: later ∧
        (opening = .slash → skipped = []) ∧ matchesName piece name = true ∧
        (concat back).Matches (slashed later) := by
  rw [matches_concat_append]
  simp only [matches_concat_append, h.matches_iff]
  constructor
  · intro hexists
    obtain ⟨_, rest, ⟨_, word, ⟨front, rfl, hfront⟩, hword, rfl⟩, hrest, hcut⟩ := hexists
    -- The opening's part ends in a slash, which stands before the name that the segment matches.
    rw [List.append_assoc, List.append_assoc, List.singleton_append] at hcut
    obtain ⟨skipped, name, later, rfl, rfl, hlater⟩ := exists_of_slashed_eq hnames hcut
    have hname : slashByte ∉ name := hnames name (by simp)
    have hnone : slashByte ∉ word := by
      rw [← List.count_eq_zero, count_slashByte_of_chars hword]
      exact List.count_eq_zero_of_not_mem hpiece
    obtain ⟨rfl, rfl⟩ :=
      eq_of_append_eq hnone hname (hback rest hrest) (slashed_boundary later) hlater
    refine ⟨skipped, word, later, rfl, fun hslash => ?_, (matchesName_iff piece hname).mpr hword,
      hrest⟩
    rw [if_pos hslash] at hfront
    cases skipped with
    | nil => rfl
    | cons first skipped => simp [slashed_cons] at hfront
  · intro hexists
    obtain ⟨skipped, name, later, rfl, hskipped, hname, hlater⟩ := hexists
    refine ⟨slashed skipped ++ [slashByte] ++ name, slashed later,
      ⟨slashed skipped ++ [slashByte], name, ⟨slashed skipped, rfl, ?_⟩, ?_, rfl⟩, hlater, ?_⟩
    · split
      · rename_i hslash
        rw [hskipped hslash]
        rfl
      · exact slashed_boundary skipped
    · exact (matchesName_iff piece (hnames name (by simp))).mp hname
    · rw [slashed_append, slashed_cons]
      simp

/-- A segment behind an opening matches a name as its tokens do, if what follows does. -/
theorem matches_piece_iff_matchesSegments (h : opening.HasSlash) (hstars : piece ≠ twoStars)
    (hpiece : '/' ∉ piece) (hnames : ∀ name ∈ names, slashByte ∉ name) {back : List Token}
    (hback : ∀ word, (concat back).Matches word → word = [] ∨ word.head? = some slashByte)
    (hrest : ∀ later ⊆ names, (concat back).Matches (slashed later) ↔
      matchesSegments false pieces later = true) :
    (concat (opening.tokens ++ piece.map Token.ofChar ++ back)).Matches (slashed names) ↔
      ∃ skipped later, names = skipped ++ later ∧ (opening = .slash → skipped = []) ∧
        matchesSegments false (piece :: pieces) later = true := by
  rw [matches_piece h hpiece hnames hback]
  simp only [matchesSegments_cons hstars]
  constructor
  · intro hexists
    obtain ⟨skipped, name, later, rfl, hskipped, hname, hlater⟩ := hexists
    have hsub : later ⊆ skipped ++ name :: later := by
      intro other hother
      simp [hother]
    exact ⟨skipped, _, rfl, hskipped, name, later, rfl, hname, (hrest later hsub).mp hlater⟩
  · intro hexists
    obtain ⟨skipped, _, rfl, hskipped, name, later, rfl, hname, hlater⟩ := hexists
    have hsub : later ⊆ skipped ++ name :: later := by
      intro other hother
      simp [hother]
    exact ⟨skipped, name, later, rfl, hskipped, hname, (hrest later hsub).mpr hlater⟩

/-- Two stars at the end of a glob stand for one name or more. -/
theorem matches_trailingStars :
    (concat [.trailingStars]).Matches (slashed names) ↔ names ≠ [] := by
  rw [matches_concat_singleton, Token.toRegular, matches_seq]
  simp only [matches_slash, matches_anything, true_and]
  cases names with
  | nil => simp [slashed]
  | cons name names => simp [slashed_cons]

/-- Segments behind an opening with a slash match names as their tokens do, after the names that the
opening skips. -/
theorem matches_segmentTokens (h : opening.HasSlash) (hne : pieces ≠ [])
    (hpieces : ∀ piece ∈ pieces, '/' ∉ piece) (hnames : ∀ name ∈ names, slashByte ∉ name) :
    (concat (segmentTokens opening pieces)).Matches (slashed names) ↔
      ∃ skipped later, names = skipped ++ later ∧ (opening = .slash → skipped = []) ∧
        matchesSegments false pieces later = true := by
  fun_induction segmentTokens opening pieces generalizing names with
  | case1 => exact absurd rfl hne
  | case2 opening =>
    rw [h.lastStars, matches_trailingStars]
    simp only [matchesSegments, if_true, Bool.false_or, Bool.not_eq_true', List.isEmpty_eq_false_iff]
    constructor
    · intro hsome
      exact ⟨[], names, rfl, fun _ => rfl, hsome⟩
    · intro hexists
      obtain ⟨skipped, later, rfl, -, hlater⟩ := hexists
      exact List.append_ne_nil_of_right_ne_nil skipped hlater
  | case3 opening piece hstars =>
    have hend (word : List UInt8) (hword : (concat []).Matches word) :
        word = [] ∨ word.head? = some slashByte := .inl (matches_concat_nil.mp hword)
    rw [← List.append_nil (opening.tokens ++ piece.map Token.ofChar)]
    refine matches_piece_iff_matchesSegments h hstars (hpieces piece List.mem_cons_self) hnames hend
      fun later _ => ?_
    rw [matches_concat_nil, matchesSegments]
    cases later with
    | nil => simp [slashed]
    | cons => simp [slashed_cons]
  | case4 opening next rest ih =>
    obtain ⟨-, hrest⟩ := List.forall_mem_cons.mp hpieces
    have hsegments := ih (.inr h.withStars) (List.cons_ne_nil next rest) hrest hnames
    simp only [h.withStars, reduceCtorEq, false_implies, true_and] at hsegments
    rw [h.withStars, hsegments]
    simp only [matchesSegments_twoStars (List.cons_ne_nil next rest)]
    constructor
    · intro hexists
      obtain ⟨skipped, later, hcut, hlater⟩ := hexists
      exact ⟨[], names, rfl, fun _ => rfl, skipped, later, hcut, hlater⟩
    · intro hexists
      obtain ⟨skipped, _, rfl, -, more, later, rfl, hlater⟩ := hexists
      exact ⟨skipped ++ more, later, (List.append_assoc skipped more later).symm, hlater⟩
  | case5 opening piece next rest hstars ih =>
    obtain ⟨hpiece, hrest⟩ := List.forall_mem_cons.mp hpieces
    have hslash : Opening.HasSlash .slash := .inl rfl
    have hback (word : List UInt8)
        (hword : (concat (segmentTokens .slash (next :: rest))).Matches word) :
        word = [] ∨ word.head? = some slashByte :=
      .inr (head?_of_startsWithSlash (startsWithSlash_segmentTokens hslash _) hword)
    refine matches_piece_iff_matchesSegments h hstars hpiece hnames hback fun later hlater => ?_
    rw [ih hslash (List.cons_ne_nil next rest) hrest fun name hname => hnames name (hlater hname)]
    constructor
    · intro hexists
      obtain ⟨skipped, _, rfl, hskipped, hsegments⟩ := hexists
      rwa [hskipped rfl]
    · intro hsegments
      exact ⟨[], later, rfl, fun _ => rfl, hsegments⟩

end Words

section Start

variable {opening : Opening} {pieces : List (List Char)}

/-- Openings of a first segment. -/
def Opening.IsFirst (opening : Opening) : Prop := opening = .start ∨ opening = .leadingStars

/-- The same opening behind a slash. -/
def Opening.behindSlash : Opening → Opening
  | .start => .slash
  | .leadingStars => .innerStars
  | opening => opening

theorem Opening.IsFirst.withStars (h : opening.IsFirst) : opening.withStars = .leadingStars := by
  rcases h with rfl | rfl <;> rfl

theorem Opening.IsFirst.behindSlash_withStars (h : opening.IsFirst) :
    opening.behindSlash.withStars = .innerStars := by
  rcases h with rfl | rfl <;> rfl

/-- A slash before an opening turns leading stars into inner ones. -/
theorem Opening.IsFirst.matches_iff (h : opening.IsFirst) {word : List UInt8} :
    (concat opening.behindSlash.tokens).Matches word ↔
      ∃ rest, word = slashByte :: rest ∧ (concat opening.tokens).Matches rest := by
  rcases h with rfl | rfl
  · simp only [behindSlash, tokens, matches_literal_slash, matches_concat_nil]
    simp
  · simp only [behindSlash, tokens, matches_concat_singleton, Token.toRegular, matches_alt,
      matches_seq, matches_empty, matches_slash, matches_anything, true_and]
    constructor
    · intro hword
      rcases hword with rfl | ⟨_, _, rfl, ⟨middle, _, rfl, rfl⟩, rfl⟩
      · exact ⟨[], rfl, .inl (.inl rfl)⟩
      · exact ⟨_, rfl, .inr ⟨middle, _, rfl, rfl⟩⟩
    · intro hexists
      obtain ⟨_, rfl, (rfl | rfl) | ⟨middle, _, rfl, rfl⟩⟩ := hexists
      · exact .inl rfl
      · exact .inr ⟨_, _, rfl, ⟨[], _, rfl, rfl⟩, rfl⟩
      · exact .inr ⟨_, _, rfl, ⟨middle, _, rfl, rfl⟩, rfl⟩

/-- So does a slash before an opening and the tokens behind it. -/
theorem Opening.IsFirst.matches_append_iff (h : opening.IsFirst) {back : List Token}
    {word : List UInt8} :
    (concat (opening.behindSlash.tokens ++ back)).Matches (slashByte :: word) ↔
      (concat (opening.tokens ++ back)).Matches word := by
  rw [matches_concat_append, matches_concat_append]
  simp only [h.matches_iff]
  constructor
  · intro hexists
    obtain ⟨_, v, ⟨u, rfl, hu⟩, hv, hcut⟩ := hexists
    obtain ⟨-, rfl⟩ := List.cons.inj hcut
    exact ⟨u, v, hu, hv, rfl⟩
  · intro hexists
    obtain ⟨u, v, hu, hv, rfl⟩ := hexists
    exact ⟨slashByte :: u, v, ⟨u, rfl, hu⟩, hv, rfl⟩

/-- Segments at the start of a glob are matched as behind a slash, unless they are all stars. -/
theorem matches_segmentTokens_behindSlash (h : opening.IsFirst)
    (hsome : ∃ piece ∈ pieces, piece ≠ twoStars) {word : List UInt8} :
    (concat (segmentTokens opening.behindSlash pieces)).Matches (slashByte :: word) ↔
      (concat (segmentTokens opening pieces)).Matches word := by
  fun_induction segmentTokens opening pieces with
  | case1 => simp at hsome
  | case2 opening => simp at hsome
  | case3 opening piece hstars =>
    rw [segmentTokens, if_neg hstars]
    exact h.matches_append_iff
  | case4 opening next rest ih =>
    obtain ⟨piece, hpiece, hstars⟩ := hsome
    have hrest := (List.mem_cons.mp hpiece).resolve_left hstars
    rw [segmentTokens, if_pos rfl, h.behindSlash_withStars]
    rw [h.withStars] at ih ⊢
    exact ih (.inr rfl) ⟨piece, hrest, hstars⟩
  | case5 opening piece next rest hstars ih =>
    rw [segmentTokens, if_neg hstars, List.append_assoc, List.append_assoc]
    exact h.matches_append_iff

/-- Segments at the start of a glob that are all stars are read as leading stars. -/
theorem segmentTokens_of_forall (h : opening.IsFirst) (hne : pieces ≠ [])
    (hall : ∀ piece ∈ pieces, piece = twoStars) :
    segmentTokens opening pieces = [.leadingStars] := by
  fun_induction segmentTokens opening pieces with
  | case1 => exact absurd rfl hne
  | case2 opening => rcases h with rfl | rfl <;> rfl
  | case3 opening piece hstars => exact absurd (hall piece List.mem_cons_self) hstars
  | case4 opening next rest ih =>
    exact ih (.inr h.withStars) (List.cons_ne_nil next rest) fun piece hpiece =>
      hall piece (List.mem_cons_of_mem _ hpiece)
  | case5 opening piece next rest hstars => exact absurd (hall piece List.mem_cons_self) hstars

/-- Only segments that are all stars are read as leading stars alone, unless the last one is empty. -/
theorem forall_of_segmentTokens_eq (htokens : segmentTokens opening pieces = [.leadingStars])
    (hne : pieces ≠ []) (hlast : pieces.getLast? ≠ some []) :
    ∀ piece ∈ pieces, piece = twoStars := by
  have hchar (c : Char) : Token.ofChar c ≠ .leadingStars := by
    unfold Token.ofChar
    split <;> simp
  have hpiece {piece : List Char} {front : List Token}
      (h : front ++ piece.map Token.ofChar = [.leadingStars]) : piece = [] := by
    cases piece using List.reverseRecOn with
    | nil => rfl
    | append_singleton piece c =>
      have hend := congrArg List.getLast? h
      rw [List.map_append, ← List.append_assoc, List.map_singleton, List.getLast?_concat] at hend
      exact absurd (Option.some.inj hend) (hchar c)
  fun_induction segmentTokens opening pieces with
  | case1 => exact absurd rfl hne
  | case2 opening => simp
  | case3 opening piece hstars =>
    rw [hpiece htokens] at hlast
    exact absurd rfl hlast
  | case4 opening next rest ih =>
    rw [List.getLast?_cons_cons] at hlast
    exact List.forall_mem_cons.mpr ⟨rfl, ih htokens (List.cons_ne_nil next rest) hlast⟩
  | case5 opening piece next rest hstars ih =>
    have hslash := startsWithSlash_segmentTokens (.inl rfl) (next :: rest)
    rcases List.append_eq_singleton_iff.mp htokens with ⟨-, hback⟩ | ⟨-, hback⟩
    · simp [hback, Token.startsWithSlash] at hslash
    · simp [hback] at hslash

/-- A text that does not end in a slash has no empty last segment, unless it is empty. -/
theorem eq_nil_of_getLast?_segments {text : List Char} (hends : endsInSlash text = false)
    (hlast : (segments text).getLast? = some []) : text = [] := by
  obtain ⟨front, hfront⟩ := List.getLast?_eq_some_iff.mp hlast
  have htext : text = join '/' (front ++ [[]]) := by rw [← hfront, segments, join_split]
  by_cases hnil : front = []
  · rw [htext, hnil]
    rfl
  · rw [htext, join_concat hnil] at hends
    simp [endsInSlash] at hends

/-- A plain glob whose text does not end in a slash matches the paths that its segments match. -/
theorem isMatch_eq_matchesPath {glob : Glob} {text : List Char} (hplain : IsPlain text)
    (hends : endsInSlash text = false) (hparse : parse false text = .ok glob.tokens)
    (path : List Char) : glob.isMatch path = matchesPath text path := by
  have htokens : glob.tokens = segmentTokens .start (segments text) := by
    rw [parse_of_isPlain hplain] at hparse
    exact (Except.ok.inj hparse).symm
  have hstart : Opening.IsFirst .start := .inl rfl
  have hne : segments text ≠ [] := split_ne_nil text
  by_cases hall : ∀ piece ∈ segments text, piece = twoStars
  · rw [Bool.eq_iff_iff]
    have hmatch : glob.isMatch path = true := by
      rw [isMatch, toRegular, htokens, segmentTokens_of_forall hstart hne hall, if_pos rfl,
        accepts_iff]
      exact matches_anything _
    have honly : (segments text).all (· = twoStars) = true := by simpa using hall
    rw [matchesPath, honly]
    exact iff_of_true hmatch (matchesSegments_of_forall hne hall _)
  · -- Behind a slash, the path is its names and the glob's tokens are those of its segments.
    have hsome : ∃ piece ∈ segments text, piece ≠ twoStars := by simpa using hall
    have honly : (segments text).all (· = twoStars) = false := by simpa using hsome
    have hstars : segmentTokens .start (segments text) ≠ [.leadingStars] := by
      intro heq
      by_cases hlast : (segments text).getLast? = some []
      · rw [eq_nil_of_getLast?_segments hends hlast] at heq
        cases heq
      · exact hall (forall_of_segmentTokens_eq heq hne hlast)
    have hslash : Opening.HasSlash .slash := .inl rfl
    have hpieces (piece : List Char) (hpiece : piece ∈ segments text) : '/' ∉ piece :=
      notMem_of_mem_split hpiece
    have hnames : ∀ name ∈ (segments path).map bytes, slashByte ∉ name := by
      rw [← split_bytes]
      exact fun name hname => notMem_of_mem_split hname
    have hwords : (concat (segmentTokens Opening.start.behindSlash (segments text))).Matches
        (slashByte :: bytes path) ↔ (concat (segmentTokens .start (segments text))).Matches
        (bytes path) := matches_segmentTokens_behindSlash hstart hsome
    rw [cons_bytes, Opening.behindSlash, matches_segmentTokens hslash hne hpieces hnames] at hwords
    rw [Bool.eq_iff_iff, isMatch, toRegular, htokens, if_neg hstars, accepts_iff, ← hwords,
      matchesPath, honly]
    constructor
    · intro hexists
      obtain ⟨skipped, later, hcut, hskipped, hlater⟩ := hexists
      rw [hskipped rfl, List.nil_append] at hcut
      rwa [hcut]
    · intro hsegments
      exact ⟨[], _, rfl, fun _ => rfl, hsegments⟩

end Start

end TreeLayout.Glob
