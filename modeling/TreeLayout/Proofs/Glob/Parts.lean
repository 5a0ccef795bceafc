import Mathlib.Data.List.Induction
import TreeLayout.Proofs.Glob.Reading

/-!
# Reading a glob in parts

A segment of a glob without brackets, braces and backslashes is read character by character, unless
it is a recursive wildcard. Such a segment separates what stands before it from what stands after
it: the tokens of the whole are those of the three parts (`parse_append_segment`).
-/

namespace TreeLayout.Glob

/-- The token of a plain character. -/
def Token.ofChar : Char → Token
  | '?' => .anyByte
  | '*' => .anyRun
  | c => .literal c

/-- Whether a text holds no bracket that opens a class, no brace and no backslash. -/
def IsPlain (text : List Char) : Prop :=
  ∀ c ∈ text, c ≠ '[' ∧ c ≠ '\x7b' ∧ c ≠ '\x7d' ∧ c ≠ '\\'

instance (text : List Char) : Decidable (IsPlain text) :=
  List.decidableBAll _ text

/-- Two stars of a segment that holds more are two single stars. -/
theorem starsMeaning_eq_twoRuns {isFirst : Bool} {before next : Option Char}
    (h : isFirst = false ∧ before ≠ some '/' ∨ ∃ c, next = some c ∧ c ≠ '/') :
    starsMeaning isFirst false before next = .twoRuns := by
  unfold starsMeaning
  grind

namespace Reader

section Composition

/-- With strict brackets, what a character does is independent of the text after it. -/
theorem step_congr {reader : Reader} (h : reader.lenient = false) (c : Char)
    (rest rest' : List Char) : reader.step c rest = reader.step c rest' := by
  have htext (r : Reader) (hr : r.lenient = false) : r.stepText c rest = r.stepText c rest' := by
    unfold stepText
    split <;> simp [hr]
  unfold step
  split
  · exact htext reader h
  · rfl
  · split
    · rfl
    · exact htext _ h
  · rename_i before _
    have hclosed := (reader.advances_closeStars before c).lenient
    split
    · rfl
    · rename_i closed hclose
      rw [hclose] at hclosed
      exact htext closed (hclosed.trans h)
  · rfl

/-- A text is read as its first part and then the rest. -/
theorem run_append {reader : Reader} (h : reader.lenient = false) (front back : List Char) :
    reader.run (front ++ back) = (reader.run front).bind (·.run back) := by
  induction front generalizing reader with
  | nil => rfl
  | cons c front ih =>
    rw [List.cons_append, run, run, step_congr h c _ front]
    cases hstep : reader.step c front with
    | error fault => rfl
    | ok next => exact ih ((advances_step hstep).lenient.trans h)

theorem read_append {reader : Reader} (h : reader.lenient = false) (front back : List Char) :
    reader.read (front ++ back) = (reader.run front).bind (·.read back) := by
  rw [read, run_append h]
  cases reader.run front <;> rfl

/-- After a slash either a class is still open, or the last token is a slash or stands for stars
with their slash. -/
theorem step_slash {reader next : Reader} {rest : List Char}
    (h : reader.step '/' rest = .ok next) :
    (∃ classReader, next.mode = .class classReader) ∨
      next.mode = .text ∧ next.last = some '/' ∧ ∃ token tokens,
        next.level.tokens = token :: tokens ∧ (token = .literal '/' ∨ token.isSettled = false) := by
  have htext {r : Reader} (hr : r.mode = .text) (k : r.stepText '/' rest = .ok next) :
      next.mode = .text ∧ next.last = some '/' ∧ ∃ token tokens,
        next.level.tokens = token :: tokens ∧ (token = .literal '/' ∨ token.isSettled = false) := by
    cases k
    exact ⟨hr, rfl, _, _, rfl, .inl rfl⟩
  unfold step at h
  split at h
  · rename_i hmode
    exact .inr (htext hmode h)
  · cases h
    exact .inr ⟨rfl, rfl, _, _, rfl, .inl rfl⟩
  · exact .inr (htext rfl h)
  · rename_i before _
    rw [closeStars_eq] at h
    cases hmeaning : starsMeaning reader.level.tokens.isEmpty reader.inGroup before (some '/') with
    | twoRuns | trailing =>
      rw [hmeaning] at h
      exact .inr (htext rfl h)
    | leading =>
      rw [hmeaning] at h
      cases h
      exact .inr ⟨rfl, rfl, _, _, rfl, .inr rfl⟩
    | inner =>
      rw [hmeaning] at h
      cases h
      refine .inr ⟨rfl, rfl, ?_⟩
      simp only [pushStars]
      split
      · exact ⟨_, _, rfl, .inr rfl⟩
      · exact ⟨_, _, rfl, .inr rfl⟩
      · exact ⟨_, _, rfl, .inr rfl⟩
      · exact ⟨_, _, rfl, .inr rfl⟩
  · rename_i classReader _
    cases hstep : classReader.step '/' with
    | error fault => simp [hstep, bind, Except.bind] at h
    | ok read =>
      cases read with
      | inl classReader =>
        simp only [hstep, bind, Except.bind, Except.ok.injEq] at h
        exact .inl ⟨classReader, by rw [← h]⟩
      | inr token =>
        unfold ClassReader.step at hstep
        grind

/-- A reader that is done outside of groups has its tokens. -/
theorem of_finish {reader : Reader} {tokens : List Token} (hmode : reader.mode = .text)
    (h : reader.finish = .ok tokens) :
    reader.outer = [] ∧ reader.level.tokens = tokens.reverse := by
  unfold finish at h
  rw [hmode] at h
  cases houter : reader.outer with
  | nil =>
    simp only [inGroup, houter, List.isEmpty_nil, Bool.not_true, Bool.false_eq_true, if_false,
      pure, Except.pure, bind, Except.bind, Except.ok.injEq] at h
    exact ⟨rfl, by rw [← h, List.reverse_reverse]⟩
  | cons =>
    simp [inGroup, houter, pure, Except.pure, bind, Except.bind, throw, throwThe,
      MonadExceptOf.throw] at h

/-- A strict reader at the start of a segment, outside of groups, that has read some tokens. -/
structure StartsSegment (reader : Reader) (tokens : List Token) : Prop where
  lenient : reader.lenient = false
  literalBrackets : reader.literalBrackets = false
  mode : reader.mode = .text
  outer : reader.outer = []
  level : reader.level = ⟨[], tokens.reverse⟩
  last : tokens ≠ [] → reader.last = some '/'

/-- Some tokens end in a slash, or in stars that take their slash with them. -/
def EndsInSlash (tokens : List Token) : Prop :=
  ∃ front token, tokens = front ++ [token] ∧ (token = .literal '/' ∨ token.isSettled = false)

/-- A glob that ends in a slash is read to the start of a segment. -/
theorem startsSegment_of_parse {lead : List Char} {tokens : List Token}
    (hlead : lead = [] ∨ lead.getLast? = some '/') (h : parse false lead = .ok tokens) :
    ∃ reader : Reader, run { lenient := false } lead = .ok reader ∧ StartsSegment reader tokens ∧
      Grows [] tokens.reverse ∧ (tokens = [] ∨ EndsInSlash tokens) := by
  rcases hlead with rfl | hlead
  · cases h
    exact ⟨_, rfl, ⟨rfl, rfl, rfl, rfl, rfl, fun h => absurd rfl h⟩, .refl, .inl rfl⟩
  · obtain ⟨front, rfl⟩ := List.getLast?_eq_some_iff.mp hlead
    rw [parse_eq_read, read_append rfl] at h
    rw [run_append rfl]
    cases hfront : run { lenient := false } front with
    | error fault => simp [hfront, Except.bind] at h
    | ok middle =>
      rw [hfront, Except.bind, read_cons] at h
      cases hstep : middle.step '/' [] with
      | error fault => simp [hstep, Except.bind] at h
      | ok reader =>
        rw [hstep, Except.bind, read_nil] at h
        have hadvances := (advances_run hfront).trans (advances_step hstep)
        rcases step_slash hstep with
          ⟨classReader, hmode⟩ | ⟨hmode, hlast, token, rest, htokens, htoken⟩
        · simp [finish, hmode, bind, Except.bind, throw, throwThe, MonadExceptOf.throw] at h
        · obtain ⟨houter, hlevel⟩ := of_finish hmode h
          have hground : reader.ground = reader.level := by
            rw [ground, houter]
            rfl
          have hbranches : reader.level.branches = [] := hground ▸ hadvances.branches
          have hgrows : Grows [] reader.level.tokens := hground ▸ hadvances.tokens
          refine ⟨reader, ?_, ⟨hadvances.lenient, hadvances.literalBrackets rfl, hmode, houter, ?_,
            fun _ => hlast⟩, hlevel ▸ hgrows, .inr ⟨rest.reverse, token, ?_, htoken⟩⟩
          · simp [run, hstep, Except.bind, bind]
          · rw [← hlevel, ← hbranches]
          · rw [hlevel] at htokens
            rw [← List.reverse_reverse tokens, htokens, List.reverse_cons]

end Composition

section Segment

/-- A reader one plain character further, which has become a token of its own. -/
def advance (reader : Reader) (c : Char) : Reader :=
  push { reader with last := some c } (Token.ofChar c)

theorem advance_star (reader : Reader) (hmode : reader.mode = .text) :
    reader.advance '*' = reader.pastStars.push .anyRun := by
  rw [← show { reader with mode := .text } = reader by rw [← hmode]]
  rfl

/-- Outside of groups, a plain character other than a star is a token of its own. -/
theorem stepText_of_isPlain {reader : Reader} (houter : reader.outer = []) {c : Char}
    (hplain : IsPlain [c]) (hstar : c ≠ '*') (rest : List Char) :
    reader.stepText c rest = .ok (reader.advance c) := by
  have hc := hplain c (List.mem_singleton_self c)
  unfold stepText
  split
  · rfl
  · exact absurd rfl hstar
  · exact absurd rfl hc.1
  · exact absurd rfl hc.2.1
  · exact absurd rfl hc.2.2.1
  · simp [inGroup, houter, advance, Token.ofChar]
  · exact absurd rfl hc.2.2.2
  · simp only [advance, Token.ofChar]

/-- A single star is a token of its own, whatever follows. -/
theorem read_star {reader : Reader} (hmode : reader.mode = .text) (text : List Char)
    (hnext : text.head? ≠ some '*') :
    reader.read ('*' :: text) = (reader.advance '*').read text := by
  have hstar : reader.step '*' text =
      .ok { reader with mode := .star reader.last, last := some '*' } := by
    unfold step
    rw [hmode]
    rfl
  rw [read_cons, hstar, advance_star reader hmode]
  cases text with
  | nil => rfl
  | cons c text =>
    have hc : c ≠ '*' := by simpa using hnext
    have hsame : step { reader with mode := .star reader.last, last := some '*' } c text =
        (reader.pastStars.push .anyRun).step c text := by
      simp only [step, hc, if_false]
      rfl
    simp only [Except.bind, read_cons, hsame]

/-- Two stars that are no recursive wildcard are two tokens, whatever follows. -/
theorem read_stars {reader : Reader} (hmode : reader.mode = .text) {text : List Char}
    (hmeaning : starsMeaning reader.level.tokens.isEmpty reader.inGroup reader.last text.head? =
      .twoRuns) :
    reader.read ('*' :: '*' :: text) = ((reader.advance '*').advance '*').read text := by
  have hstar : reader.step '*' ('*' :: text) =
      .ok { reader with mode := .star reader.last, last := some '*' } := by
    unfold step
    rw [hmode]
    rfl
  have hstars : step { reader with mode := .star reader.last, last := some '*' } '*' text =
      .ok { reader with mode := .stars reader.last, last := some '*' } := rfl
  have htwo : (reader.advance '*').advance '*' =
      (reader.pastStars.push .anyRun).push .anyRun := by
    rw [advance_star (reader.advance '*') hmode, advance_star reader hmode]
    rfl
  have hclose : closeStars { reader with mode := .stars reader.last, last := some '*' }
      reader.last text.head? = ((reader.advance '*').advance '*', false) := by
    rw [closeStars_eq]
    simp only [inGroup] at hmeaning ⊢
    rw [hmeaning, htwo]
    rfl
  rw [read_cons, hstar, Except.bind, read_cons, hstars, Except.bind]
  cases text with
  | nil =>
    rw [List.head?_nil] at hclose
    simp only [read_nil, finish, hclose]
    rw [htwo]
    rfl
  | cons c text =>
    rw [List.head?_cons] at hclose
    have hsame : step { reader with mode := .stars reader.last, last := some '*' } c text =
        ((reader.advance '*').advance '*').step c text := by
      simp only [step, hclose]
      rw [htwo]
      rfl
    rw [read_cons, read_cons, hsame]

/-- A plain segment is read character by character unless it is a recursive wildcard; after tokens
of its own segment even two stars are no recursive wildcard. -/
theorem read_segment (reader : Reader) (hmode : reader.mode = .text) (houter : reader.outer = [])
    {segment back : List Char} (hplain : IsPlain segment) (hslash : '/' ∉ segment)
    (hstart : segment ≠ ['*', '*'] ∨ reader.level.tokens ≠ [] ∧ reader.last ≠ some '/')
    (hback : back = [] ∨ back.head? = some '/') :
    reader.read (segment ++ back) = (segment.foldl advance reader).read back := by
  induction hlength : segment.length using Nat.strongRecOn generalizing segment reader with
  | ind n ih =>
    -- After a character of the segment, its tokens are there and the last character is no slash.
    have hrest (r : Reader) (c : Char) (rest : List Char) (hr : r.mode = .text)
        (hr' : r.outer = []) (hc : c ≠ '/') (hsub : rest ⊆ segment) (hlt : rest.length < n) :
        (r.advance c).read (rest ++ back) = (rest.foldl advance (r.advance c)).read back :=
      ih rest.length hlt (r.advance c) hr hr' (fun d hd => hplain d (hsub hd))
        (fun hmem => hslash (hsub hmem))
        (.inr ⟨List.cons_ne_nil _ _, by simpa [advance, push] using hc⟩) rfl
    cases segment with
    | nil => rfl
    | cons c rest =>
      by_cases hc : c = '*'
      · subst hc
        cases rest with
        | nil =>
          refine read_star hmode back ?_
          rcases hback with rfl | hback
          · simp
          · simp [hback]
        | cons d rest =>
          by_cases hd : d = '*'
          · subst hd
            have hmeaning : starsMeaning reader.level.tokens.isEmpty reader.inGroup reader.last
                (rest ++ back).head? = .twoRuns := by
              rw [show reader.inGroup = false by simp [inGroup, houter]]
              refine starsMeaning_eq_twoRuns ?_
              rcases hstart with hne | ⟨hlevel, hlast⟩
              · obtain ⟨e, rest, rfl⟩ := List.exists_cons_of_ne_nil (l := rest) (by simpa using hne)
                refine .inr ⟨e, rfl, fun he => hslash ?_⟩
                simp [he]
              · exact .inl ⟨by simpa using hlevel, hlast⟩
            have hstars := read_stars hmode hmeaning
            refine hstars.trans (hrest (reader.advance '*') '*' rest hmode houter (by decide) ?_ ?_)
            · exact fun e he => List.mem_cons_of_mem _ (List.mem_cons_of_mem _ he)
            · simp only [List.length_cons] at hlength
              omega
          · have hone := read_star hmode (d :: (rest ++ back)) (by simpa using hd)
            refine hone.trans (hrest reader '*' (d :: rest) hmode houter (by decide) ?_ ?_)
            · exact fun e he => List.mem_cons_of_mem _ he
            · simp only [List.length_cons] at hlength ⊢
              omega
      · have hchar : reader.step c (rest ++ back) = .ok (reader.advance c) := by
          unfold step
          rw [hmode]
          refine stepText_of_isPlain houter (fun d hd => hplain d ?_) hc _
          exact List.mem_cons.mpr (.inl (List.mem_singleton.mp hd))
        rw [List.cons_append, read_cons, hchar]
        refine hrest reader c rest hmode houter ?_ ?_ ?_
        · exact fun hslash' => hslash (hslash' ▸ List.mem_cons_self)
        · exact fun e he => List.mem_cons_of_mem _ he
        · simp only [List.length_cons] at hlength
          omega

/-- What a plain segment leaves behind. -/
theorem foldl_advance (segment : List Char) (reader : Reader) :
    segment.foldl advance reader =
      { reader with
        level := { reader.level with
          tokens := (segment.map Token.ofChar).reverse ++ reader.level.tokens }
        last := segment.getLast?.or reader.last } := by
  induction segment using List.reverseRecOn with
  | nil => rfl
  | append_singleton front c ih =>
    rw [List.foldl_append, ih]
    simp [advance, push, Level.push]

end Segment

end Reader

/-- A plain segment separates what is before it from what is after it: their tokens follow each
other, with a token for each of its characters between them. -/
theorem parse_append_segment {lead segment trail : List Char} {tokens : List Token}
    (hlead : lead = [] ∨ lead.getLast? = some '/') (hparse : parse false lead = .ok tokens)
    (hplain : IsPlain segment) (hslash : '/' ∉ segment) (hstars : segment ≠ ['*', '*'])
    (htrail : trail = [] ∨ trail.head? = some '/') :
    parse false (lead ++ (segment ++ trail)) =
      (parse false trail).map (tokens ++ segment.map Token.ofChar ++ ·) := by
  obtain ⟨reader, hrun, hstart, -, -⟩ := Reader.startsSegment_of_parse hlead hparse
  rw [Reader.parse_eq_read, Reader.read_append rfl, hrun, Except.bind,
    Reader.read_segment reader hstart.mode hstart.outer hplain hslash (.inl hstars) htrail,
    Reader.foldl_advance]
  obtain ⟨lenient, level, outer, last, mode, literalBrackets⟩ := reader
  obtain ⟨rfl, rfl, rfl, rfl, rfl, -⟩ := hstart
  cases trail with
  | nil =>
    rw [Reader.parse_eq_read, Reader.read_nil, Reader.read_nil]
    simp [Reader.finish, Reader.inGroup, Except.map, pure, Except.pure, bind, Except.bind]
  | cons c trail =>
    obtain rfl : c = '/' := by simpa using htrail
    -- The slash is a token of its own either way, so the rest is read over what was before it.
    let start : Reader := { lenient := false, level := ⟨[], [.literal '/']⟩, last := some '/' }
    have hcovered : start.IsCovered := .inl (.inl (List.cons_ne_nil _ _))
    have hread (base : List Token) (last : Option Char) :
        Reader.read { lenient := false, level := ⟨[], base⟩, last } ('/' :: trail) =
          (start.read trail).map (base.reverse ++ ·) := by
      rw [Reader.read_cons]
      exact Reader.read_atop hcovered trail
    rw [Reader.parse_eq_read, hread, hread [] none]
    cases start.read trail <;> simp [Except.map]

end TreeLayout.Glob
