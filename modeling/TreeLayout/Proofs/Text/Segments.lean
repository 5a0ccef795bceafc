import Mathlib.Data.List.Basic
import TreeLayout.Proofs.Text.Bytes
import TreeLayout.Text.Path

/-!
# Segments of texts and of their bytes

Cutting at a separator and joining again, the segments of a path beside the pieces of its bytes, and
the paths whose segments are names. A part of a path between two slashes is a segment, and its place
is given by the number of slashes before it.
-/

namespace TreeLayout.Text

section Split

variable {α : Type} {separator : α}

/-- A piece between others, joined: each piece before it is followed by a separator, and each piece
after it follows one. -/
theorem join_append_cons (before : List (List α)) (piece : List α) (after : List (List α)) :
    join separator (before ++ piece :: after) =
      before.flatMap (· ++ [separator]) ++ piece ++ after.flatMap (separator :: ·) := by
  induction before with
  | nil =>
    induction after generalizing piece with
    | nil => simp [join]
    | cons next after ih =>
      have h := ih next
      simp only [List.nil_append, List.flatMap_nil] at h ⊢
      simp [join, h]
  | cons first before ih =>
    obtain ⟨next, rest, hrest⟩ := List.exists_cons_of_ne_nil
      (List.append_ne_nil_of_right_ne_nil before (List.cons_ne_nil piece after))
    rw [List.cons_append, hrest, join, ← hrest, ih]
    · simp
    · simp

/-- A piece after others, joined: it follows a separator. -/
theorem join_concat {pieces : List (List α)} (hne : pieces ≠ []) (piece : List α) :
    join separator (pieces ++ [piece]) = join separator pieces ++ separator :: piece := by
  induction pieces with
  | nil => exact absurd rfl hne
  | cons first pieces ih =>
    cases pieces with
    | nil => rfl
    | cons next pieces =>
      have hrest := ih (List.cons_ne_nil next pieces)
      simp only [List.cons_append] at hrest
      simp [join, hrest]

/-- Pieces with a separator after each end in a separator. -/
theorem getLast?_flatMap_separator (pieces : List (List α)) :
    pieces.flatMap (· ++ [separator]) = [] ∨
      (pieces.flatMap (· ++ [separator])).getLast? = some separator := by
  cases pieces using List.reverseRecOn with
  | nil => exact .inl rfl
  | append_singleton pieces piece =>
    refine .inr ?_
    rw [List.flatMap_append, List.flatMap_singleton, ← List.append_assoc, List.getLast?_concat]

/-- Pieces with a separator before each start with a separator. -/
theorem head?_flatMap_separator (pieces : List (List α)) :
    pieces.flatMap (separator :: ·) = [] ∨
      (pieces.flatMap (separator :: ·)).head? = some separator := by
  cases pieces with
  | nil => exact .inl rfl
  | cons => exact .inr rfl

variable [DecidableEq α]

/-- Pieces with a separator after each have as many separators as there are pieces. -/
theorem count_flatMap_append_separator {pieces : List (List α)}
    (h : ∀ piece ∈ pieces, separator ∉ piece) :
    (pieces.flatMap (· ++ [separator])).count separator = pieces.length := by
  induction pieces with
  | nil => rfl
  | cons piece pieces ih =>
    have hpiece := List.count_eq_zero_of_not_mem (h piece List.mem_cons_self)
    have hpieces := ih fun other hother => h other (List.mem_cons_of_mem _ hother)
    rw [List.flatMap_cons, List.count_append, List.count_append, hpiece, hpieces,
      List.count_singleton_self, List.length_cons]
    omega

/-- Pieces with a separator before each have as many separators as there are pieces. -/
theorem count_flatMap_separator {pieces : List (List α)}
    (h : ∀ piece ∈ pieces, separator ∉ piece) :
    (pieces.flatMap (separator :: ·)).count separator = pieces.length := by
  induction pieces with
  | nil => rfl
  | cons piece pieces ih =>
    have hpiece := List.count_eq_zero_of_not_mem (h piece List.mem_cons_self)
    have hpieces := ih fun other hother => h other (List.mem_cons_of_mem _ hother)
    rw [List.flatMap_cons, List.cons_append, List.count_cons_self, List.count_append, hpiece,
      hpieces, List.length_cons]
    omega

/-- A list without a separator is one piece. -/
theorem split_of_notMem {text : List α} (h : separator ∉ text) : split separator text = [text] := by
  induction text with
  | nil => rfl
  | cons a text ih =>
    obtain ⟨ha, htext⟩ := not_or.mp (List.mem_cons.not.mp h)
    have hpieces := ih htext
    simp only [split, List.cons.injEq] at hpieces
    simp [split, splitFirst, Ne.symm ha, hpieces.1, hpieces.2]

/-- A separator ends one piece and starts the next. -/
theorem split_append_cons (front back : List α) :
    split separator (front ++ separator :: back) =
      split separator front ++ split separator back := by
  induction front with
  | nil => simp [split, splitFirst]
  | cons a front ih =>
    simp only [split, List.cons_append, List.cons.injEq] at ih
    by_cases h : a = separator
    · simp [split, splitFirst, h, ih.1, ih.2]
    · simp [split, splitFirst, h, ih.1, ih.2]

/-- Pieces with a separator after each are found again, and an empty one after the last separator. -/
theorem split_flatMap_append_separator {pieces : List (List α)}
    (h : ∀ piece ∈ pieces, separator ∉ piece) :
    split separator (pieces.flatMap (· ++ [separator])) = pieces ++ [[]] := by
  induction pieces with
  | nil => rfl
  | cons piece pieces ih =>
    have hpiece := split_of_notMem (h piece List.mem_cons_self)
    have hrest := ih fun next hnext => h next (List.mem_cons_of_mem piece hnext)
    rw [List.flatMap_cons, List.append_assoc, List.singleton_append, split_append_cons, hpiece, hrest,
      List.singleton_append, List.cons_append]

/-- Each separator at the end of a list adds an empty piece. -/
theorem split_append_replicate (text : List α) (count : Nat) :
    split separator (text ++ List.replicate count separator) =
      split separator text ++ List.replicate count [] := by
  induction count with
  | zero => rw [List.replicate_zero, List.replicate_zero, List.append_nil, List.append_nil]
  | succ count ih =>
    rw [List.replicate_succ', ← List.append_assoc, split_append_cons, ih, List.replicate_succ',
      List.append_assoc]
    rfl

/-- There is one piece more than there are separators. -/
theorem length_split (text : List α) :
    (split separator text).length = text.count separator + 1 := by
  induction text with
  | nil => rfl
  | cons a text ih =>
    simp only [split, List.length_cons] at ih
    by_cases h : a = separator
    · simp [split, splitFirst, h, Nat.succ.inj ih]
    · simp [split, splitFirst, h, Nat.succ.inj ih]

/-- No piece holds the separator. -/
theorem notMem_of_mem_split {text piece : List α} (h : piece ∈ split separator text) :
    separator ∉ piece := by
  induction text generalizing piece with
  | nil => simp_all [split, splitFirst]
  | cons a text ih =>
    by_cases ha : a = separator
    · rw [ha, show separator :: text = [] ++ separator :: text from rfl, split_append_cons] at h
      rcases List.mem_append.mp h with hfirst | hrest
      · simp_all [split, splitFirst]
      · exact ih hrest
    · simp only [split, splitFirst, ha, if_false, List.mem_cons] at h
      rcases h with rfl | hrest
      · exact List.not_mem_cons_of_ne_of_not_mem (Ne.symm ha) (ih (by simp [split]))
      · exact ih (by simp [split, hrest])

/-- Everything but separators is in a piece. -/
theorem exists_mem_split {a : α} {text : List α} (h : a ∈ text) (ha : a ≠ separator) :
    ∃ piece ∈ split separator text, a ∈ piece := by
  induction text with
  | nil => cases h
  | cons b text ih =>
    by_cases hb : b = separator
    · subst hb
      have htext : a ∈ text := (List.mem_cons.mp h).resolve_left ha
      obtain ⟨piece, hpiece, hmem⟩ := ih htext
      rw [show b :: text = [] ++ b :: text from rfl, split_append_cons]
      exact ⟨piece, List.mem_append_right _ hpiece, hmem⟩
    · simp only [split, splitFirst, hb, if_false] at ih ⊢
      rcases List.mem_cons.mp h with rfl | htext
      · exact ⟨_, List.mem_cons_self, List.mem_cons_self⟩
      · obtain ⟨piece, hpiece, hmem⟩ := ih htext
        rcases List.mem_cons.mp hpiece with rfl | hrest
        · exact ⟨_, List.mem_cons_self, List.mem_cons_of_mem b hmem⟩
        · exact ⟨piece, List.mem_cons_of_mem _ hrest, hmem⟩

/-- The pieces of a text hold nothing else. -/
theorem subset_of_mem_split {text piece : List α} (h : piece ∈ split separator text) :
    piece ⊆ text := by
  obtain ⟨front, back, hsplit⟩ := List.append_of_mem h
  rw [← join_split separator text, hsplit, join_append_cons]
  exact fun a ha => List.mem_append_left _ (List.mem_append_right _ ha)

theorem split_ne_nil (text : List α) : split separator text ≠ [] := by simp [split]

/-- Pieces without a separator are found again after joining. -/
theorem split_join {pieces : List (List α)} (hne : pieces ≠ [])
    (h : ∀ piece ∈ pieces, separator ∉ piece) : split separator (join separator pieces) = pieces := by
  induction pieces with
  | nil => exact absurd rfl hne
  | cons piece pieces ih =>
    have hpiece := split_of_notMem (h piece List.mem_cons_self)
    cases pieces with
    | nil => exact hpiece
    | cons next pieces =>
      rw [join, split_append_cons, hpiece,
        ih (List.cons_ne_nil _ _) fun piece hmem => h piece (List.mem_cons_of_mem _ hmem)]
      · rfl
      · exact List.cons_ne_nil _ _

/-- The pieces of a text with a separator after each are the text and a last separator. -/
theorem flatMap_split_append (text : List α) :
    (split separator text).flatMap (· ++ [separator]) = text ++ [separator] := by
  obtain ⟨front, last, hpieces⟩ :=
    (List.eq_nil_or_concat (split separator text)).resolve_left (split_ne_nil text)
  rw [List.concat_eq_append] at hpieces
  have htext := join_split separator text
  rw [hpieces, join_append_cons, List.flatMap_nil, List.append_nil] at htext
  rw [hpieces, List.flatMap_append, List.flatMap_singleton, ← List.append_assoc, htext]

/-- The pieces of a text with a separator before each are a first separator and the text. -/
theorem flatMap_separator_split (text : List α) :
    (split separator text).flatMap (separator :: ·) = separator :: text := by
  have hne : split separator text ≠ [] := split_ne_nil text
  obtain ⟨first, rest, hpieces⟩ := List.exists_cons_of_ne_nil hne
  have htext := join_split separator text
  rw [hpieces, ← List.nil_append (first :: rest), join_append_cons, List.flatMap_nil,
    List.nil_append] at htext
  rw [hpieces, List.flatMap_cons, List.cons_append, htext]

/-- Between a start that ends in a separator and an end that starts with one stands a piece, with the
pieces of the two around it. -/
theorem exists_split_between {front middle back : List α} (hmiddle : separator ∉ middle)
    (hfront : front = [] ∨ front.getLast? = some separator)
    (hback : back = [] ∨ back.head? = some separator) :
    ∃ first last, split separator (front ++ middle ++ back) = first ++ middle :: last ∧
      front = first.flatMap (· ++ [separator]) ∧ back = last.flatMap (separator :: ·) := by
  obtain ⟨last, hlast, rfl⟩ : ∃ last, split separator (middle ++ back) = middle :: last ∧
      back = last.flatMap (separator :: ·) := by
    rcases hback with rfl | hback
    · exact ⟨[], by rw [List.append_nil, split_of_notMem hmiddle], rfl⟩
    · obtain ⟨rest, rfl⟩ := List.head?_eq_some_iff.mp hback
      refine ⟨split separator rest, ?_, (flatMap_separator_split rest).symm⟩
      rw [split_append_cons, split_of_notMem hmiddle, List.singleton_append]
  rcases hfront with rfl | hfront
  · exact ⟨[], last, hlast, rfl, rfl⟩
  · obtain ⟨rest, rfl⟩ := List.getLast?_eq_some_iff.mp hfront
    refine ⟨split separator rest, last, ?_, (flatMap_split_append rest).symm, rfl⟩
    rw [List.append_assoc, List.append_assoc, List.singleton_append, split_append_cons, hlast]

/-- The end of a text that starts with a separator, or is empty, is told by its number of separators. -/
theorem eq_of_append_eq_of_count {front back other later : List α}
    (hback : back = [] ∨ back.head? = some separator)
    (hlater : later = [] ∨ later.head? = some separator) (h : front ++ back = other ++ later)
    (hcount : back.count separator = later.count separator) : back = later := by
  have hnone {middle rest : List α} (hmiddle : middle ++ rest = [] ∨
      (middle ++ rest).head? = some separator)
      (hsame : (middle ++ rest).count separator = rest.count separator) : middle ++ rest = rest := by
    cases middle with
    | nil => rfl
    | cons a middle =>
      obtain rfl : a = separator := by simpa using hmiddle
      rw [List.count_append, List.count_cons_self] at hsame
      omega
  rcases List.append_eq_append_iff.mp h with ⟨middle, rfl, rfl⟩ | ⟨middle, rfl, rfl⟩
  · exact hnone hback hcount
  · exact (hnone hlater hcount.symm).symm

end Split

/-- Cutting the bytes of a text at a character of one byte cuts the text. -/
theorem split_bytes_of_single {a : Char} {b : UInt8} (hsingle : String.utf8EncodeChar a = [b])
    (text : List Char) : split b (bytes text) = (split a text).map bytes := by
  induction hn : text.count a generalizing text with
  | zero =>
    have htext : a ∉ text := List.count_eq_zero.mp hn
    rw [split_of_notMem htext, split_of_notMem (notMem_bytes hsingle htext)]
    rfl
  | succ n ih =>
    have hmem : a ∈ text := List.count_pos_iff.mp (by omega)
    obtain ⟨front, back, rfl, hfront⟩ := List.eq_append_cons_of_mem hmem
    have hback : back.count a = n := by
      rw [List.count_append, List.count_eq_zero_of_not_mem hfront, List.count_cons_self] at hn
      omega
    rw [bytes_append, bytes_cons, hsingle, List.singleton_append, split_append_cons,
      split_append_cons, ih back hback, split_of_notMem hfront,
      split_of_notMem (notMem_bytes hsingle hfront)]
    rfl

/-- The pieces of the bytes of a path are the bytes of its segments. -/
theorem split_bytes (path : List Char) :
    split slashByte (bytes path) = (segments path).map bytes :=
  split_bytes_of_single utf8EncodeChar_slash path

/-- A path is one of its segments between those before and after it. -/
theorem eq_of_segments_eq {path name : List Char} {first last : List (List Char)}
    (h : segments path = first ++ name :: last) :
    path = first.flatMap (· ++ ['/']) ++ name ++ last.flatMap ('/' :: ·) := by
  rw [← join_append_cons, ← h]
  exact (join_split '/' path).symm

/-- The bytes of names with a slash after each. -/
theorem bytes_flatMap_append_slash (names : List (List Char)) :
    bytes (names.flatMap (· ++ ['/'])) = (names.map bytes).flatMap (· ++ [slashByte]) := by
  induction names with
  | nil => rfl
  | cons name names ih => simp [bytes_append, utf8EncodeChar_slash, ih]

/-- The bytes of names with a slash before each. -/
theorem bytes_flatMap_slash (names : List (List Char)) :
    bytes (names.flatMap ('/' :: ·)) = (names.map bytes).flatMap (slashByte :: ·) := by
  induction names with
  | nil => rfl
  | cons name names ih => simp [bytes_append, utf8EncodeChar_slash, ih]

/-- Whether each segment of a path is a name: not empty, and neither `.` nor `..`. -/
def IsWellFormed (path : List Char) : Prop :=
  ∀ segment ∈ segments path, segment ≠ [] ∧ segment ≠ ['.'] ∧ segment ≠ ['.', '.']

instance (path : List Char) : Decidable (IsWellFormed path) :=
  List.decidableBAll _ (segments path)

/-- A text that starts with `./` starts with the segment `.`. -/
theorem mem_segments_of_dotSlash (rest : List Char) : ['.'] ∈ segments ('.' :: '/' :: rest) := by
  rw [segments, show '.' :: '/' :: rest = ['.'] ++ '/' :: rest from rfl, split_append_cons]
  exact List.mem_append_left _ (by decide)

theorem dropDotSlash_isSuffix (text : List Char) : dropDotSlash text <:+ text := by
  unfold dropDotSlash
  split
  · exact ⟨['.', '/'], rfl⟩
  · exact List.suffix_rfl

/-- Only a leading `./` is dropped. -/
theorem dropDotSlash_eq_self {text : List Char} (h : ¬ ['.', '/'] <+: text) :
    dropDotSlash text = text := by
  unfold dropDotSlash
  split
  · exact absurd ⟨_, rfl⟩ h
  · rfl

/-- A piece of a segment that is neither empty nor `.` makes no leading `./`. -/
theorem dropDotSlash_append (front : List Char) {piece : List Char} (hslash : '/' ∉ piece)
    (hne : piece ≠ []) (hdot : piece ≠ ['.']) (back : List Char) :
    dropDotSlash (front ++ piece ++ back) = dropDotSlash front ++ piece ++ back := by
  by_cases hstart : ['.', '/'] <+: front
  · obtain ⟨rest, rfl⟩ := hstart
    rfl
  · rw [dropDotSlash_eq_self hstart, dropDotSlash_eq_self]
    intro hprefix
    rcases front with _ | ⟨a, _ | ⟨b, front⟩⟩
    · rcases piece with _ | ⟨c, _ | ⟨d, piece⟩⟩
      · exact hne rfl
      · exact hdot (by rw [(List.cons_prefix_cons.mp hprefix).1])
      · obtain rfl : '/' = d := by simpa using (List.cons_prefix_cons.mp hprefix).2
        exact hslash (by simp)
    · cases piece with
      | nil => exact hne rfl
      | cons c piece =>
        obtain rfl : '/' = c := by simpa using (List.cons_prefix_cons.mp hprefix).2
        exact hslash (by simp)
    · exact hstart (by simpa using hprefix)

/-- Only leading `./` are dropped. -/
theorem dropDotSlashes_eq_self {text : List Char} (h : ¬ ['.', '/'] <+: text) :
    dropDotSlashes text = text := by
  unfold dropDotSlashes
  split
  · exact absurd ⟨_, rfl⟩ h
  · rfl

theorem dropDotSlashes_isSuffix (text : List Char) : dropDotSlashes text <:+ text := by
  fun_induction dropDotSlashes text with
  | case1 rest ih => exact ih.trans ⟨['.', '/'], rfl⟩
  | case2 text => exact List.suffix_rfl

/-- All leading `./` are dropped. -/
theorem not_dotSlash_dropDotSlashes (text : List Char) :
    ¬ ['.', '/'] <+: dropDotSlashes text := by
  fun_induction dropDotSlashes text with
  | case1 rest ih => exact ih
  | case2 text hstart =>
    intro hexists
    obtain ⟨rest, hrest⟩ := hexists
    exact hstart rest hrest.symm

/-- Pieces whose first is not `.` are joined to a text without a leading `./`. -/
theorem not_dotSlash_join {pieces : List (List Char)} (hne : pieces ≠ [])
    (hslash : ∀ piece ∈ pieces, '/' ∉ piece) (hfirst : pieces.head? ≠ some ['.']) :
    ¬ ['.', '/'] <+: join '/' pieces := by
  intro hexists
  obtain ⟨rest, hrest⟩ := hexists
  apply hfirst
  rw [← split_join hne hslash, ← hrest, show ['.', '/'] ++ rest = ['.'] ++ '/' :: rest from rfl,
    split_append_cons]
  rfl

theorem endsInSlash_append {front back : List Char} (h : back ≠ []) :
    endsInSlash (front ++ back) = endsInSlash back := by
  rw [endsInSlash, List.getLast?_append_of_ne_nil _ h, endsInSlash]

/-- Leading `./` do not matter for whether a text ends in a slash, if anything else is left. -/
theorem endsInSlash_dropDotSlashes {text : List Char} (h : dropDotSlashes text ≠ []) :
    endsInSlash (dropDotSlashes text) = endsInSlash text := by
  obtain ⟨start, hstart⟩ := dropDotSlashes_isSuffix text
  have hends : endsInSlash (start ++ dropDotSlashes text) = endsInSlash (dropDotSlashes text) :=
    endsInSlash_append h
  rw [hstart] at hends
  exact hends.symm

theorem endsInSlash_append_slash (path : String) : endsInSlash (path ++ "/").toList = true := by
  rw [String.toList_append, endsInSlash_append (by decide)]
  rfl

/-- Except for `./` itself, a text that ends in a slash still does without a leading `./`. -/
theorem endsInSlash_dropDotSlash {text : List Char} (h : endsInSlash text = true)
    (hne : text ≠ ['.', '/']) : endsInSlash (dropDotSlash text) = true := by
  unfold dropDotSlash
  split
  · rename_i rest
    have hrest : rest ≠ [] := by
      intro heq
      subst heq
      exact hne rfl
    rwa [show '.' :: '/' :: rest = ['.', '/'] ++ rest from rfl, endsInSlash_append hrest] at h
  · exact h

/-- Dropping slashes at the end looks only at the part that is not all slashes. -/
theorem dropSlashes_append (front : List Char) {c : Char} (hc : c ≠ '/') (back : List Char) :
    dropSlashes (front ++ c :: back) = front ++ c :: dropSlashes back := by
  have hrev : (front ++ c :: back).reverse = back.reverse ++ (c :: front.reverse) := by simp
  rw [dropSlashes, hrev, List.dropWhile_append]
  by_cases hback : (back.reverse.dropWhile (· = '/')).isEmpty
  · rw [if_pos hback, List.dropWhile_cons_of_neg (by simpa using hc)]
    rw [List.isEmpty_iff] at hback
    simp [dropSlashes, hback]
  · rw [if_neg hback]
    simp [dropSlashes]

/-- A text that does not end in a slash keeps its end. -/
theorem dropSlashes_eq_self {text : List Char} (h : endsInSlash text = false) :
    dropSlashes text = text := by
  cases text using List.reverseRecOn with
  | nil => rfl
  | append_singleton front c =>
    have hc : c ≠ '/' := by simpa [endsInSlash] using h
    rw [dropSlashes_append front hc]
    rfl

/-- One slash at the end is dropped together with those before it. -/
theorem dropSlashes_append_slash (text : List Char) :
    dropSlashes (text ++ ['/']) = dropSlashes text := by
  simp [dropSlashes]

/-- A slash behind a text also follows the text without the slashes at its end. -/
theorem exists_dropSlashes_append_slash (text rest : List Char) :
    ∃ rest', text ++ '/' :: rest = dropSlashes text ++ '/' :: rest' := by
  induction text using List.reverseRecOn generalizing rest with
  | nil => exact ⟨rest, rfl⟩
  | append_singleton front c ih =>
    by_cases hc : c = '/'
    · subst hc
      obtain ⟨rest', hrest⟩ := ih ('/' :: rest)
      rw [dropSlashes_append_slash]
      exact ⟨rest', by simpa using hrest⟩
    · rw [dropSlashes_append front hc]
      exact ⟨rest, rfl⟩

/-- Nothing ends in a slash without its slashes. -/
theorem endsInSlash_dropSlashes (text : List Char) : endsInSlash (dropSlashes text) = false := by
  have hhead := List.head?_dropWhile_not (fun c => decide (c = '/')) text.reverse
  rw [endsInSlash, dropSlashes, List.getLast?_reverse]
  cases hdrop : (text.reverse.dropWhile (· = '/')).head? with
  | none => rfl
  | some c =>
    rw [hdrop] at hhead
    simpa using hhead

/-- Only the end of a text is dropped. -/
theorem dropSlashes_isPrefix (text : List Char) : dropSlashes text <+: text := by
  have hsuffix := List.dropWhile_suffix (l := text.reverse) (· = '/')
  have hreverse := List.reverse_prefix.mpr hsuffix
  rwa [List.reverse_reverse] at hreverse

/-- A text that starts with a slash still does, or nothing is left of it. -/
theorem head?_dropSlashes {text : List Char} (h : text = [] ∨ text.head? = some '/') :
    dropSlashes text = [] ∨ (dropSlashes text).head? = some '/' := by
  obtain ⟨rest, hrest⟩ := dropSlashes_isPrefix text
  cases hdrop : dropSlashes text with
  | nil => exact .inl rfl
  | cons c front =>
    rw [hdrop] at hrest
    rw [← hrest] at h
    exact .inr (h.resolve_left (List.cons_ne_nil _ _))

/-- A text with at most one slash at its end is the text without its slashes, and perhaps a slash. -/
theorem eq_dropSlashes_append {text : List Char} (h : ¬ ['/', '/'] <:+ text) :
    text = dropSlashes text ++ if endsInSlash text then ['/'] else [] := by
  cases hends : endsInSlash text with
  | false => simp [dropSlashes_eq_self hends]
  | true =>
    obtain ⟨front, rfl⟩ := List.getLast?_eq_some_iff.mp (by simpa [endsInSlash] using hends)
    have hfront : endsInSlash front = false := by
      rw [endsInSlash, decide_eq_false_iff_not, List.getLast?_eq_some_iff]
      intro hexists
      obtain ⟨rest, rfl⟩ := hexists
      exact h ⟨rest, by simp⟩
    rw [dropSlashes_append_slash, dropSlashes_eq_self hfront]
    rfl

/-- A path without empty segments ends in no slash. -/
theorem endsInSlash_of_notMem_segments {path : List Char} (h : [] ∉ segments path) :
    endsInSlash path = false := by
  rw [endsInSlash, decide_eq_false_iff_not, List.getLast?_eq_some_iff]
  intro hlast
  obtain ⟨front, hpath⟩ := hlast
  apply h
  rw [hpath, segments, split_append_cons]
  exact List.mem_append_right _ (by decide)

/-- A path without empty segments starts with no slash. -/
theorem head?_of_notMem_segments {path : List Char} (h : [] ∉ segments path) :
    path.head? ≠ some '/' := by
  intro hhead
  obtain ⟨rest, hpath⟩ := List.head?_eq_some_iff.mp hhead
  apply h
  rw [hpath, segments, show '/' :: rest = [] ++ '/' :: rest from rfl, split_append_cons]
  exact List.mem_append_left _ (by decide)

/-- A path has the segments that it has without a leading `./`. -/
theorem segments_dropDotSlash_subset (path : List Char) :
    segments (dropDotSlash path) ⊆ segments path := by
  unfold dropDotSlash
  split
  · rename_i rest
    rw [segments, segments, show '.' :: '/' :: rest = ['.'] ++ '/' :: rest from rfl,
      split_append_cons]
    exact List.subset_append_right _ _
  · exact List.Subset.refl _

/-- A well-formed path ends in no slash. -/
theorem IsWellFormed.endsInSlash {path : List Char} (h : IsWellFormed path) :
    endsInSlash path = false :=
  endsInSlash_of_notMem_segments fun hmem => (h [] hmem).1 rfl

/-- A well-formed path, also with a slash behind it, has no leading `./`. -/
theorem dropDotSlashes_of_isWellFormed {written : List Char}
    (h : IsWellFormed (dropLastOf '/' written)) : dropDotSlashes written = written := by
  apply dropDotSlashes_eq_self
  intro hexists
  obtain ⟨rest, rfl⟩ := hexists
  have hdot : ['.'] ∈ segments (dropLastOf '/' (['.', '/'] ++ rest)) := by
    cases rest with
    | nil => decide
    | cons c rest =>
      unfold dropLastOf
      split
      · exact mem_segments_of_dotSlash (c :: rest).dropLast
      · exact mem_segments_of_dotSlash (c :: rest)
  exact (h _ hdot).2.1 rfl

/-- A well-formed path with a slash behind it is the path, once its marks are dropped. -/
theorem dropSlashes_dropDotSlashes_of_isWellFormed {written : List Char}
    (h : IsWellFormed (dropLastOf '/' written)) :
    dropSlashes (dropDotSlashes written) = dropLastOf '/' written := by
  rw [dropDotSlashes_of_isWellFormed h]
  unfold dropLastOf at h ⊢
  split
  · rename_i hlast
    rw [if_pos hlast] at h
    obtain ⟨front, rfl⟩ := List.getLast?_eq_some_iff.mp hlast
    rw [List.dropLast_concat] at h ⊢
    rw [dropSlashes_append_slash, dropSlashes_eq_self h.endsInSlash]
  · rename_i hlast
    rw [if_neg hlast] at h
    exact dropSlashes_eq_self h.endsInSlash

end TreeLayout.Text
