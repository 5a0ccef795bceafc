import TreeLayout.Proofs.Glob.Openings
import TreeLayout.Regular.Lemmas

/-!
# Slashes in the words of a glob

The words of a glob that ends in a slash end in slashes, those of a glob that starts with one start
with slashes, and the words of a plain segment hold none. So a plain segment of a glob describes one
segment of each path, and the parts around it describe the segments before and after that one
(`matches_between_iff`). How many these are is fixed where nothing can cross segments (`CrossesAsWritten`).
-/

namespace TreeLayout.Glob

open Text Regular

/-- Tokens in two rows describe the words of both, put together. -/
theorem matches_concat_append {front back : List Token} {word : List UInt8} :
    (concat (front ++ back)).Matches word ↔
      ∃ u v, (concat front).Matches u ∧ (concat back).Matches v ∧ word = u ++ v := by
  simp only [concat, List.map_append]
  induction front generalizing word with
  | nil => simp [Regular.concat]
  | cons token front ih =>
    simp only [List.map_cons, List.cons_append, matches_concat_cons, ih]
    constructor
    · intro hexists
      obtain ⟨u, _, hu, ⟨v, w, hv, hw, rfl⟩, rfl⟩ := hexists
      exact ⟨u ++ v, w, ⟨u, v, hu, hv, rfl⟩, hw, (List.append_assoc u v w).symm⟩
    · intro hexists
      obtain ⟨_, w, ⟨u, v, hu, hv, rfl⟩, hw, rfl⟩ := hexists
      exact ⟨u, v ++ w, hu, ⟨v, w, hv, hw, rfl⟩, List.append_assoc u v w⟩

@[simp] theorem matches_concat_nil {word : List UInt8} : (concat []).Matches word ↔ word = [] :=
  matches_empty

@[simp] theorem matches_concat_singleton {token : Token} {word : List UInt8} :
    (concat [token]).Matches word ↔ token.toRegular.Matches word := Iff.rfl

section Chars

/-- A run within a segment holds no slash. -/
theorem slashByte_notMem_of_star {word : List UInt8}
    (h : (Regular.star (.byte withinSegment)).Matches word) : slashByte ∉ word := by
  induction word with
  | nil => exact List.not_mem_nil
  | cons b word ih =>
    obtain ⟨u, v, hu, hv, rfl⟩ := matches_star_cons.mp h
    obtain ⟨a, ha, hau⟩ := matches_byte.mp hu
    obtain ⟨rfl, rfl⟩ := List.cons.inj hau
    have hb : slashByte ≠ b := by
      intro heq
      subst heq
      exact absurd ha (by decide)
    exact List.not_mem_cons_of_ne_of_not_mem hb (ih hv)

/-- A plain character crosses a segment only if it is a slash. -/
theorem count_slashByte_of_ofChar {c : Char} {word : List UInt8}
    (h : (Token.ofChar c).toRegular.Matches word) : word.count slashByte = [c].count '/' := by
  by_cases hc : c = '/'
  · subst hc
    rw [matches_literal.mp h]
    decide
  · have hword : slashByte ∉ word := by
      unfold Token.ofChar at h
      split at h
      · obtain ⟨b, hb, rfl⟩ := matches_byte.mp h
        rw [List.mem_singleton]
        intro heq
        subst heq
        exact absurd hb (by decide)
      · exact slashByte_notMem_of_star h
      · rw [matches_literal.mp h]
        exact slashByte_notMem_utf8EncodeChar hc
    rw [List.count_eq_zero_of_not_mem hword, List.count_eq_zero_of_not_mem (by simp [Ne.symm hc])]

/-- A text read character by character crosses as many segments as it has slashes. -/
theorem count_slashByte_of_chars {text : List Char} {word : List UInt8}
    (h : (concat (text.map Token.ofChar)).Matches word) :
    word.count slashByte = text.count '/' := by
  induction text generalizing word with
  | nil => simp [matches_concat_nil.mp h]
  | cons c text ih =>
    obtain ⟨u, v, hu, hv, rfl⟩ := matches_concat_cons.mp h
    rw [List.count_append, count_slashByte_of_ofChar hu, ih hv, ← List.count_append,
      List.singleton_append]

/-- Every plain character describes itself. -/
theorem matches_ofChar_self (c : Char) :
    (Token.ofChar c).toRegular.Matches (String.utf8EncodeChar c) := by
  unfold Token.ofChar
  split
  · exact .byte (by decide)
  · exact .more (u := String.utf8EncodeChar '*') (.byte (by decide)) .done
  · exact matches_literal.mpr rfl

/-- A plain text, read as a glob character by character, describes itself. -/
theorem matches_self (text : List Char) : (concat (text.map Token.ofChar)).Matches (bytes text) := by
  induction text with
  | nil => exact matches_concat_nil.mpr rfl
  | cons c text ih =>
    rw [bytes_cons]
    exact matches_concat_cons.mpr ⟨_, _, matches_ofChar_self c, ih, rfl⟩

/-- Literal characters describe one word. -/
theorem matches_literals {text : List Char} (h : ∀ c ∈ text, c ≠ '?' ∧ c ≠ '*')
    {word : List UInt8} : (concat (text.map Token.ofChar)).Matches word ↔ word = bytes text := by
  induction text generalizing word with
  | nil => exact matches_concat_nil
  | cons c text ih =>
    have hc := h c List.mem_cons_self
    have htoken : (Token.ofChar c).toRegular = .literal (String.utf8EncodeChar c) := by
      unfold Token.ofChar
      simp [hc, Token.toRegular]
    rw [bytes_cons, List.map_cons, concat, List.map_cons, matches_concat_cons, htoken]
    simp only [matches_literal]
    constructor
    · intro hexists
      obtain ⟨u, v, rfl, hv, rfl⟩ := hexists
      rw [(ih fun d hd => h d (List.mem_cons_of_mem c hd)).mp hv]
    · intro heq
      subst heq
      exact ⟨_, _, rfl, matches_self text, rfl⟩

end Chars

section Boundary

theorem matches_slash {word : List UInt8} : slash.Matches word ↔ word = [slashByte] := by
  rw [slash, matches_byte]
  simp only [ByteSet.contains_single, beq_iff_eq]
  constructor
  · intro hexists
    obtain ⟨b, rfl, rfl⟩ := hexists
    rfl
  · intro hword
    exact ⟨slashByte, rfl, hword⟩

/-- Whether every word of a token starts with a slash. -/
def Token.startsWithSlash : Token → Bool
  | .literal c => c = '/'
  | .innerStars | .trailingStars => true
  | .anyByte | .anyRun | .leadingStars | .class _ _ | .group _ => false

/-- Stars that can still change are inner stars, or leading stars, which come first. -/
theorem Grows.of_cons {token : Token} {tokens : List Token} (h : Grows [] (token :: tokens))
    (ht : token.isSettled = false) : token = .innerStars ∨ token = .leadingStars ∧ tokens = [] := by
  cases h with
  | push _ hsettled => simp [hsettled] at ht
  | leading => exact .inr ⟨rfl, rfl⟩
  | inner => exact .inl rfl

/-- Growth keeps a slash at the start. -/
theorem Grows.startsWithSlash {start tokens : List Token} (h : Grows start tokens)
    (hstart : start.getLast?.any Token.startsWithSlash) :
    tokens.getLast?.any Token.startsWithSlash := by
  induction h with
  | refl => exact hstart
  | @push tokens token _ _ ih =>
    cases tokens with
    | nil => simp at ih
    | cons => simpa using ih
  | leading _ ih => simp at ih
  | @inner tokens token _ _ ih =>
    cases tokens with
    | nil => rfl
    | cons => simpa using ih

namespace Reader

/-- Stars in the place of the last token keep a slash at the start. -/
theorem startsWithSlash_pushStars (reader : Reader) {token : Token}
    (htoken : token.startsWithSlash)
    (h : reader.level.tokens.getLast?.any Token.startsWithSlash) :
    (reader.pushStars token).level.tokens.getLast?.any Token.startsWithSlash := by
  unfold pushStars
  cases htokens : reader.level.tokens with
  | nil => simp [htokens] at h
  | cons top tokens =>
    rw [htokens] at h
    cases tokens with
    | nil =>
      cases top with
      | leadingStars | trailingStars => exact h
      | _ => simpa using htoken
    | cons => cases top <;> simpa using h

/-- The end of a glob keeps a slash at the start. -/
theorem startsWithSlash_of_finish {reader : Reader} {tokens : List Token}
    (h : reader.finish = .ok tokens)
    (hground : reader.ground.tokens.getLast?.any Token.startsWithSlash) :
    tokens.head?.any Token.startsWithSlash := by
  have hlevel : reader.outer = [] → reader.level.tokens.getLast?.any Token.startsWithSlash := by
    intro houter
    simpa [ground, houter, Level.outermost] using hground
  have hend {r : Reader} (hr : r.outer = [] → r.level.tokens.getLast?.any Token.startsWithSlash)
      (hfinish : (if r.inGroup then throw Fault.unclosedGroup else
        pure r.level.tokens.reverse : Except Fault (List Token)) = .ok tokens) :
      tokens.head?.any Token.startsWithSlash := by
    split at hfinish
    · cases hfinish
    · rename_i hgroup
      cases hfinish
      rw [List.head?_reverse]
      exact hr (by simpa [inGroup] using hgroup)
  have hpush {r : Reader} (token : Token) (hr : r.level.tokens.getLast?.any Token.startsWithSlash) :
      (r.push token).level.tokens.getLast?.any Token.startsWithSlash := by
    cases htokens : r.level.tokens with
    | nil => simp [htokens] at hr
    | cons => simpa [push, Level.push, htokens] using hr
  unfold finish at h
  split at h
  · exact hend hlevel h
  · cases h
  · exact hend (fun houter => hpush .anyRun (hlevel houter)) h
  · rename_i before _
    refine hend (fun houter => ?_) h
    rw [closeStars_eq] at houter ⊢
    cases hmeaning : starsMeaning reader.level.tokens.isEmpty reader.inGroup before none with
    | twoRuns =>
      rw [hmeaning] at houter
      exact hpush .anyRun (hpush .anyRun (hlevel houter))
    | leading =>
      rw [hmeaning] at houter
      exact hpush (r := reader.pastStars) .leadingStars (hlevel houter)
    | inner => simpa using (of_inner hmeaning).2
    | trailing =>
      rw [hmeaning] at houter
      exact startsWithSlash_pushStars reader.pastStars rfl (hlevel houter)
  · cases h

end Reader

/-- A glob that starts with a slash has a first token that does. -/
theorem startsWithSlash_of_parse {rest : List Char} {tokens : List Token}
    (h : parse false ('/' :: rest) = .ok tokens) : tokens.head?.any Token.startsWithSlash := by
  rw [Reader.parse_eq_read, Reader.read_cons] at h
  change Reader.read { lenient := false, level := ⟨[], [.literal '/']⟩, last := some '/' } rest =
    .ok tokens at h
  rw [Reader.read] at h
  cases hrun : Reader.run { lenient := false, level := ⟨[], [.literal '/']⟩, last := some '/' }
      rest with
  | error fault => simp [hrun, bind, Except.bind] at h
  | ok reader =>
    rw [hrun] at h
    exact Reader.startsWithSlash_of_finish h
      ((Reader.advances_run hrun).tokens.startsWithSlash rfl)

/-- Before some tokens whose first has a slash at its start, there is a slash. -/
theorem head?_of_startsWithSlash {tokens : List Token}
    (h : tokens.head?.any Token.startsWithSlash) {word : List UInt8}
    (hword : (concat tokens).Matches word) : word.head? = some slashByte := by
  cases tokens with
  | nil => simp at h
  | cons token tokens =>
    obtain ⟨u, v, hu, hv, rfl⟩ := matches_concat_cons.mp hword
    cases token with
    | literal c =>
      obtain rfl : c = '/' := by simpa [Token.startsWithSlash] using h
      rw [matches_literal.mp hu, utf8EncodeChar_slash]
      rfl
    | trailingStars =>
      obtain ⟨x, y, hx, -, rfl⟩ := matches_seq.mp hu
      rw [matches_slash.mp hx]
      rfl
    | innerStars =>
      rcases matches_alt.mp hu with hu | hu
      · rw [matches_slash.mp hu]
        rfl
      · obtain ⟨x, y, hx, -, rfl⟩ := matches_seq.mp hu
        rw [matches_slash.mp hx]
        rfl
    | _ => simp [Token.startsWithSlash] at h

/-- The words of a glob that ends in a slash end in slashes, apart from the empty one. -/
theorem getLast?_of_endsInSlash {tokens : List Token} (hgrows : Grows [] tokens.reverse)
    (h : tokens = [] ∨ Reader.EndsInSlash tokens) {word : List UInt8}
    (hword : (concat tokens).Matches word) : word = [] ∨ word.getLast? = some slashByte := by
  have hslash (u w : List UInt8) (hw : slash.Matches w) : (u ++ w).getLast? = some slashByte := by
    rw [matches_slash.mp hw, List.getLast?_concat]
  rcases h with rfl | ⟨front, token, rfl, htoken⟩
  · exact .inl (matches_concat_nil.mp hword)
  · obtain ⟨u, v, hu, hv, rfl⟩ := matches_concat_append.mp hword
    rw [List.reverse_append, List.reverse_singleton, List.singleton_append] at hgrows
    rw [matches_concat_singleton] at hv
    rcases htoken with rfl | hsettled
    · rw [matches_literal.mp hv, utf8EncodeChar_slash]
      exact .inr List.getLast?_concat
    · rcases hgrows.of_cons hsettled with rfl | ⟨rfl, hfront⟩
      · refine .inr ?_
        rcases matches_alt.mp hv with hv | hv
        · exact hslash u v hv
        · obtain ⟨x, _, -, hy, rfl⟩ := matches_seq.mp hv
          obtain ⟨y, z, -, hz, rfl⟩ := matches_seq.mp hy
          rw [← List.append_assoc, ← List.append_assoc]
          exact hslash _ z hz
      · obtain rfl : front = [] := by simpa using hfront
        rw [matches_concat_nil.mp hu, List.nil_append]
        rcases matches_alt.mp hv with hv | hv
        · rcases matches_alt.mp hv with hv | hv
          · exact .inl (matches_empty.mp hv)
          · exact .inr (hslash [] v hv)
        · obtain ⟨x, y, -, hy, rfl⟩ := matches_seq.mp hv
          exact .inr (hslash x y hy)

/-- The words of a glob that ends in a slash are empty or end in one. -/
theorem getLast?_of_matches {lead : List Char} {front : List Token}
    (hlead : lead = [] ∨ lead.getLast? = some '/') (hfront : parse false lead = .ok front)
    {word : List UInt8} (hword : (concat front).Matches word) :
    word = [] ∨ word.getLast? = some slashByte := by
  obtain ⟨reader, -, -, hgrows, hends⟩ := Reader.startsSegment_of_parse hlead hfront
  exact getLast?_of_endsInSlash hgrows hends hword

/-- The words of a glob that starts with a slash are empty or start with one. -/
theorem head?_of_matches {trail : List Char} {back : List Token}
    (htrail : trail = [] ∨ trail.head? = some '/') (hback : parse false trail = .ok back)
    {word : List UInt8} (hword : (concat back).Matches word) :
    word = [] ∨ word.head? = some slashByte := by
  rcases htrail with rfl | htrail
  · cases hback
    exact .inl (matches_concat_nil.mp hword)
  · obtain ⟨rest, rfl⟩ := List.head?_eq_some_iff.mp htrail
    exact .inr (head?_of_startsWithSlash (startsWithSlash_of_parse hback) hword)

end Boundary

section Crossing

/-- Whether a text is a glob that describes the bytes of a word. -/
def describes (text word : List Char) : Bool :=
  match parse false text with
  | .ok tokens => (concat tokens).accepts (bytes word)
  | .error _ => false

theorem describes_iff {text : List Char} {tokens : List Token} (h : parse false text = .ok tokens)
    {word : List Char} : describes text word = true ↔ (concat tokens).Matches (bytes word) := by
  rw [describes, h]
  exact accepts_iff _ _

/-- Whether a text is a glob whose words have as many slashes as it is written with. -/
def CrossesAsWritten (text : List Char) : Prop :=
  ∃ tokens, parse false text = .ok tokens ∧
    ∀ word, (concat tokens).Matches word → word.count slashByte = text.count '/'

/-- Such a glob tells the number of slashes of every word that it describes. -/
theorem CrossesAsWritten.count_eq {text word : List Char} (h : CrossesAsWritten text)
    (hword : describes text word = true) : word.count '/' = text.count '/' := by
  obtain ⟨tokens, hparse, hcount⟩ := h
  rw [← hcount _ ((describes_iff hparse).mp hword), count_bytes utf8EncodeChar_slash]

/-- A plain text without a recursive wildcard crosses segments only where it has slashes. -/
theorem crossesAsWritten_of_isPlain {text : List Char} (hplain : IsPlain text)
    (hstars : ['*', '*'] ∉ segments text) : CrossesAsWritten text :=
  ⟨_, parse_chars hplain hstars, fun _ hword => count_slashByte_of_chars hword⟩

/-- A plain segment of a glob describes one segment of each matched path, and the parts of the glob around
it describe the segments before and after that one. -/
theorem matches_between_iff {lead segment trail : List Char} {front back : List Token}
    (hlead : lead = [] ∨ lead.getLast? = some '/') (hfront : parse false lead = .ok front)
    (hslash : '/' ∉ segment) (htrail : trail = [] ∨ trail.head? = some '/')
    (hback : parse false trail = .ok back) {path : List Char} :
    (concat (front ++ segment.map Token.ofChar ++ back)).Matches (bytes path) ↔
      ∃ first name last, segments path = first ++ name :: last ∧
        (concat front).Matches (bytes (first.flatMap (· ++ ['/']))) ∧
        (concat (segment.map Token.ofChar)).Matches (bytes name) ∧
        (concat back).Matches (bytes (last.flatMap ('/' :: ·))) := by
  constructor
  · intro h
    obtain ⟨_, after, hw, hafter, hpath⟩ := matches_concat_append.mp h
    obtain ⟨before, middle, hbefore, hmiddle, rfl⟩ := matches_concat_append.mp hw
    have hnone : slashByte ∉ middle := by
      rw [← List.count_eq_zero, count_slashByte_of_chars hmiddle]
      exact List.count_eq_zero_of_not_mem hslash
    obtain ⟨first, last, hpieces, rfl, rfl⟩ := exists_split_between hnone
      (getLast?_of_matches hlead hfront hbefore) (head?_of_matches htrail hback hafter)
    rw [← hpath, split_bytes, List.map_eq_append_iff] at hpieces
    obtain ⟨front, _, hsegments, rfl, hrest⟩ := hpieces
    obtain ⟨name, back, rfl, rfl, rfl⟩ := List.map_eq_cons_iff.mp hrest
    rw [← bytes_flatMap_append_slash] at hbefore
    rw [← bytes_flatMap_slash] at hafter
    exact ⟨front, name, back, hsegments, hbefore, hmiddle, hafter⟩
  · intro h
    obtain ⟨first, name, last, hsegments, hbefore, hname, hafter⟩ := h
    rw [eq_of_segments_eq hsegments, bytes_append, bytes_append]
    refine matches_concat_append.mpr ⟨_, _, ?_, hafter, rfl⟩
    exact matches_concat_append.mpr ⟨_, _, hbefore, hname, rfl⟩

end Crossing

end TreeLayout.Glob
