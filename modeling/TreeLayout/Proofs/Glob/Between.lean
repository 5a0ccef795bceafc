import TreeLayout.Proofs.Glob.Segmentwise

/-!
# Stars between the parts of a glob

Two stars that fill a segment of a glob take the slashes around them along, so that the tokens of the whole
are not those of its parts. What is read behind their slash is the same over any tokens, up to the next
token (`read_segmentStart`), and the stars match at least a name between words of the two parts
(`exists_parse_twoStars`). Stars in a row, single or double ones, match as many names as there are of them
(`exists_parse_stars`).
-/

namespace TreeLayout.Glob

open Text Regular

namespace Reader

/-- A reader behind a slash that has read some tokens, latest first. -/
def segmentStart (tokens : List Token) : Reader :=
  { lenient := false, level := ⟨[], tokens⟩, last := some '/' }

/-- Behind a slash, a segment other than two stars is read the same over any tokens, and so is all that
follows it. -/
theorem read_segmentStart (tokens : List Token) {rest : List Char} (hend : rest ≠ twoStars)
    (hstars : ∀ later, rest ≠ '*' :: '*' :: '/' :: later) :
    (segmentStart tokens).read rest = ((segmentStart []).read rest).map (tokens.reverse ++ ·) := by
  have hover (reader : Reader) (token : Token) (text : List Char) :
      ((reader.push token).atop tokens).read text =
        ((reader.push token).read text).map (tokens.reverse ++ ·) :=
    read_atop (.inl (hasStarted_push reader token)) text
  cases rest with
  | nil => simp [segmentStart, read_nil, finish, inGroup, Except.map, pure, Except.pure, bind, Except.bind]
  | cons c rest =>
    by_cases hc : c = '*'
    · subst hc
      by_cases hnext : rest.head? = some '*'
      · obtain ⟨rest, rfl⟩ := List.head?_eq_some_iff.mp hnext
        -- The next character makes two single stars of them, whether or not there are tokens before.
        obtain ⟨d, rest, rfl⟩ := List.exists_cons_of_ne_nil (l := rest) fun h => hend (by rw [h]; rfl)
        have hd : d ≠ '/' := fun h => hstars rest (by rw [h])
        have hmeaning (isFirst : Bool) :
            starsMeaning isFirst false (some '/') (d :: rest).head? = .twoRuns :=
          starsMeaning_eq_twoRuns (.inr ⟨d, rfl, hd⟩)
        rw [read_stars rfl (hmeaning _), read_stars rfl (hmeaning _)]
        exact hover ((segmentStart []).advance '*').pastStars .anyRun (d :: rest)
      · rw [read_star rfl rest hnext, read_star rfl rest hnext]
        exact hover (segmentStart []).pastStars .anyRun rest
    · have hstep (reader : Reader) (hmode : reader.mode = .text) :
          reader.step c rest = reader.stepText c rest := by rw [step, hmode]
      have htext := stepText_atop tokens (segmentStart []) c rest
      rw [read_cons, read_cons, hstep _ rfl, hstep _ rfl]
      rw [show (segmentStart []).atop tokens = segmentStart tokens from rfl] at htext
      rw [htext]
      cases hnext : (segmentStart []).stepText c rest with
      | error fault => rfl
      | ok next => exact read_atop (isCovered_of_stepText (fun h => absurd h hc) hnext) rest

/-- Two stars with a slash behind them take the place of the last token. -/
theorem read_segmentStart_stars (token : Token) (tokens : List Token) (later : List Char) :
    (segmentStart (token :: tokens)).read ('*' :: '*' :: '/' :: later) =
      ((segmentStart (token :: tokens)).pushStars .innerStars).read later := by
  cases token <;> rfl

/-- Two stars at the end turn inner stars into trailing ones. -/
theorem read_innerStars_twoStars (tokens : List Token) :
    (segmentStart (.innerStars :: tokens)).read twoStars = .ok (tokens.reverse ++ [.trailingStars]) :=
  congrArg Except.ok List.reverse_cons

/-- To leading stars they add nothing. -/
theorem read_leadingStars_twoStars :
    (segmentStart [.leadingStars]).read twoStars = .ok [.leadingStars] := rfl

end Reader

section Cover

/-- Leading stars take what is in front of a word that ends in a slash. -/
theorem matches_leadingStars_append {word rest : List UInt8} (h : (concat [.innerStars]).Matches rest) :
    (concat [.leadingStars]).Matches (word ++ rest) := by
  obtain ⟨skipped, rfl, -⟩ := matches_innerStars.mp h
  rw [matches_concat_singleton, Token.toRegular, matches_alt, matches_seq]
  exact .inr ⟨word ++ skipped, [slashByte], matches_anything _, matches_slash.mpr rfl, by simp⟩

/-- Inner stars take what is in front of one of their words, if it starts with a slash. -/
theorem matches_innerStars_append {word rest : List UInt8} (h : (concat [.innerStars]).Matches rest)
    (hword : word.head? = some slashByte) : (concat [.innerStars]).Matches (word ++ rest) := by
  obtain ⟨skipped, rfl, -⟩ := matches_innerStars.mp h
  refine matches_innerStars.mpr ⟨word ++ skipped, (List.append_assoc _ _ _).symm, .inr ?_⟩
  simp [List.head?_append, hword]

/-- Trailing stars take every word that starts with a slash. -/
theorem matches_trailingStars_of_head? {word : List UInt8} (hword : word.head? = some slashByte) :
    (concat [.trailingStars]).Matches word := by
  obtain ⟨rest, rfl⟩ := List.head?_eq_some_iff.mp hword
  exact matches_seq.mpr ⟨[slashByte], rest, matches_slash.mpr rfl, matches_anything _, rfl⟩

/-- A word of a slash is one of inner stars. -/
theorem matches_innerStars_of_slash {first : Token} (hfirst : first = .literal '/' ∨ first = .innerStars)
    {word : List UInt8} (h : (concat [first]).Matches word) : (concat [.innerStars]).Matches word := by
  rcases hfirst with rfl | rfl
  · exact matches_innerStars.mpr ⟨[], matches_literal_slash.mp h, .inl rfl⟩
  · exact h

/-- A word of inner stars ends in one of a slash. -/
theorem exists_slash_of_matches_innerStars {first : Token}
    (hfirst : first = .literal '/' ∨ first = .innerStars) {word : List UInt8}
    (h : (concat [.innerStars]).Matches word) :
    ∃ skipped slash, word = skipped ++ slash ∧ (concat [first]).Matches slash := by
  rcases hfirst with rfl | rfl
  · obtain ⟨skipped, rfl, -⟩ := matches_innerStars.mp h
    exact ⟨skipped, [slashByte], rfl, matches_literal_slash.mpr rfl⟩
  · exact ⟨[], word, rfl, h⟩

section Words

variable {stars first : Token} {below tokens : List Token}

/-- Stars in the place of a slash take a word in front of it; inner stars one that starts with a slash. -/
theorem matches_stars_append (hstars : stars = .leadingStars ∧ below = [] ∨ stars = .innerStars)
    (hfirst : first = .literal '/' ∨ first = .innerStars) {before word after : List UInt8}
    (hbefore : (concat below.reverse).Matches before)
    (hword : stars = .innerStars → word.head? = some slashByte)
    (hafter : (concat ([first] ++ tokens)).Matches after) :
    (concat ((stars :: below).reverse ++ tokens)).Matches (before ++ (word ++ after)) := by
  obtain ⟨slash, later, hslash, hlater, rfl⟩ := matches_concat_append.mp hafter
  have hinner := matches_innerStars_of_slash hfirst hslash
  have htaken : (concat [stars]).Matches (word ++ slash) := by
    rcases hstars with ⟨rfl, -⟩ | rfl
    · exact matches_leadingStars_append hinner
    · exact matches_innerStars_append hinner (hword rfl)
  rw [List.reverse_cons, ← List.append_assoc word, ← List.append_assoc]
  refine matches_concat_append.mpr ⟨_, later, ?_, hlater, rfl⟩
  exact matches_concat_append.mpr ⟨before, _, hbefore, htaken, rfl⟩

/-- What inner stars in the place of a slash match ends in what the slash and the rest match. -/
theorem exists_of_matches_innerStars_append (hfirst : first = .literal '/' ∨ first = .innerStars)
    {word : List UInt8} (h : (concat ((.innerStars :: below).reverse ++ tokens)).Matches word) :
    ∃ start after, word = start ++ after ∧ (concat ([first] ++ tokens)).Matches after := by
  rw [List.reverse_cons] at h
  obtain ⟨_, later, hstart, hlater, rfl⟩ := matches_concat_append.mp h
  obtain ⟨before, slash, -, hslash, rfl⟩ := matches_concat_append.mp hstart
  obtain ⟨skipped, after, rfl, hafter⟩ := exists_slash_of_matches_innerStars hfirst hslash
  refine ⟨before ++ skipped, after ++ later, by simp, ?_⟩
  exact matches_concat_append.mpr ⟨after, later, hafter, hlater, rfl⟩

end Words

/-- Stars in the place of the slash before a text take a word in front of what the slash and the text match:
leading stars any word, inner stars one that starts with a slash. Leading stars may be all that is left. What
is matched behind inner stars ends in what the slash and the text match. -/
theorem exists_read_of_stars {stars first : Token} {below back : List Token}
    (hstars : stars = .leadingStars ∧ below = [] ∨ stars = .innerStars)
    (hfirst : first = .literal '/' ∨ first = .innerStars) {rest : List Char}
    (hback : (Reader.segmentStart [first]).read rest = .ok back) :
    ∃ tokens, (Reader.segmentStart (stars :: below)).read rest = .ok tokens ∧
      (tokens = [.leadingStars] ∨ ∀ before word after, (concat below.reverse).Matches before →
        (stars = .innerStars → word.head? = some slashByte) →
          (concat back).Matches after → (concat tokens).Matches (before ++ (word ++ after))) ∧
      (stars = .innerStars → ∀ word, (concat tokens).Matches word →
        ∃ start after, word = start ++ after ∧ (concat back).Matches after) := by
  induction hlength : rest.length using Nat.strongRecOn generalizing first rest with
  | ind n ih =>
    by_cases hend : rest = twoStars
    · subst hend
      obtain rfl : back = [.trailingStars] := by
        rcases hfirst with rfl | rfl <;> exact (Except.ok.inj hback).symm
      rcases hstars with ⟨rfl, rfl⟩ | rfl
      · exact ⟨_, Reader.read_leadingStars_twoStars, .inl rfl, nofun⟩
      · refine ⟨_, Reader.read_innerStars_twoStars below, .inr ?_, fun _ word hword => ?_⟩
        · intro before word after hbefore hword _
          have hhead : (word ++ after).head? = some slashByte := by
            simp [List.head?_append, hword rfl]
          exact matches_concat_append.mpr
            ⟨before, _, hbefore, matches_trailingStars_of_head? hhead, rfl⟩
        · obtain ⟨start, after, -, hafter, rfl⟩ := matches_concat_append.mp hword
          exact ⟨start, after, rfl, hafter⟩
    by_cases hmore : ∃ later, rest = '*' :: '*' :: '/' :: later
    · obtain ⟨later, rfl⟩ := hmore
      have hinner : Reader.pushStars (Reader.segmentStart [first]) .innerStars =
          Reader.segmentStart [.innerStars] := by
        rcases hfirst with rfl | rfl <;> rfl
      have hsame : Reader.pushStars (Reader.segmentStart (stars :: below)) .innerStars =
          Reader.segmentStart (stars :: below) := by
        rcases hstars with ⟨rfl, rfl⟩ | rfl <;> rfl
      rw [Reader.read_segmentStart_stars, hinner] at hback
      rw [Reader.read_segmentStart_stars, hsame]
      refine ih later.length ?_ (.inr rfl) hback rfl
      simp only [List.length_cons] at hlength
      omega
    · have hlater (later : List Char) : rest ≠ '*' :: '*' :: '/' :: later := fun h => hmore ⟨later, h⟩
      rw [Reader.read_segmentStart _ hend hlater] at hback ⊢
      cases hread : (Reader.segmentStart []).read rest with
      | error fault =>
        rw [hread] at hback
        cases hback
      | ok tokens =>
        rw [hread] at hback
        obtain rfl : [first] ++ tokens = back := Except.ok.inj hback
        refine ⟨_, rfl, .inr fun before word after hbefore hword hafter => ?_, fun hinner word hword => ?_⟩
        · exact matches_stars_append hstars hfirst hbefore hword hafter
        · exact exists_of_matches_innerStars_append hfirst (hinner ▸ hword)

end Cover

section Between

variable {lead trail : List Char} {front back : List Token}

/-- What two stars behind a glob that ends in a slash make of its tokens: together with the slash after
them they stand in the place of that slash, or of the stars that took it. -/
structure TakesSlash (lead : List Char) (front : List Token) (stars : Token) (below : List Token) :
    Prop where
  kind : stars = .leadingStars ∧ below = [] ∨ stars = .innerStars
  inner : lead.head? = some '/' → stars = .innerStars
  read : ∀ rest, parse false (lead ++ (twoStars ++ '/' :: rest)) =
    (Reader.segmentStart (stars :: below)).read rest
  finish : parse false (lead ++ twoStars) = (Reader.segmentStart (stars :: below)).read twoStars
  words : ∀ before, (concat front).Matches before → ∃ start slash, before = start ++ slash ∧
    (concat below.reverse).Matches start ∧ (stars = .innerStars → slash.head? = some slashByte)

/-- Two stars behind a glob take its last slash. They are leading stars if there is nothing else before
them. -/
theorem exists_takesSlash (hlead : lead = [] ∨ lead.getLast? = some '/')
    (hfront : parse false lead = .ok front) : ∃ stars below, TakesSlash lead front stars below := by
  obtain ⟨reader, hrun, hstart, hgrows, hends⟩ := Reader.startsSegment_of_parse hlead hfront
  have hread (text : List Char) : parse false (lead ++ text) = reader.read text := by
    rw [Reader.parse_eq_read, Reader.read_append rfl, hrun]
    rfl
  have hslash (h : lead.head? = some '/') : front.head?.any Token.startsWithSlash := by
    obtain ⟨rest, rfl⟩ := List.head?_eq_some_iff.mp h
    exact startsWithSlash_of_parse hfront
  obtain ⟨lenient, level, outer, last, mode, literalBrackets⟩ := reader
  obtain ⟨rfl, rfl, rfl, rfl, rfl, hlast⟩ := hstart
  rcases hends with rfl | ⟨base, token, rfl, htoken⟩
  · refine ⟨.leadingStars, [], .inl ⟨rfl, rfl⟩, fun h => absurd (hslash h) (by decide),
      fun _ => (hread _).trans rfl, (hread _).trans rfl, fun before hbefore => ?_⟩
    exact ⟨[], before, rfl, matches_concat_nil.mpr rfl, nofun⟩
  · obtain rfl := hlast (by simp)
    rw [List.reverse_append, List.reverse_singleton, List.singleton_append] at hgrows hread
    have hkind : (token = .literal '/' ∨ token = .innerStars) ∨ token = .leadingStars ∧ base = [] := by
      rcases htoken with rfl | hsettled
      · exact .inl (.inl rfl)
      · exact (hgrows.of_cons hsettled).imp .inr (And.imp_right List.reverse_eq_nil_iff.mp)
    rcases hkind with hkind | ⟨rfl, rfl⟩
    · refine ⟨.innerStars, base.reverse, .inr rfl, fun _ => rfl, fun rest => (hread _).trans ?_,
        (hread _).trans ?_, fun before hbefore => ?_⟩
      · rcases hkind with rfl | rfl <;> rfl
      · rcases hkind with rfl | rfl <;> rfl
      · obtain ⟨start, slash, hstart, hword, rfl⟩ := matches_concat_append.mp hbefore
        refine ⟨start, slash, rfl, by rwa [List.reverse_reverse], fun _ => ?_⟩
        rcases hkind with rfl | rfl <;> exact head?_of_startsWithSlash rfl hword
    · refine ⟨.leadingStars, [], .inl ⟨rfl, rfl⟩, fun h => absurd (hslash h) (by decide),
        fun _ => (hread _).trans rfl, (hread _).trans rfl, fun before hbefore => ?_⟩
      exact ⟨[], before, rfl, matches_concat_nil.mpr rfl, nofun⟩

/-- A recursive wildcard between two globs makes a glob with them. It matches what they match around a single
name, and, behind a slash, what it matches ends in what the second glob matches. -/
theorem exists_parse_twoStars (hlead : lead = [] ∨ lead.getLast? = some '/')
    (hfront : parse false lead = .ok front) (htrail : trail = [] ∨ trail.head? = some '/')
    (hback : parse false trail = .ok back) :
    ∃ tokens, parse false (lead ++ (twoStars ++ trail)) = .ok tokens ∧
      (tokens = [.leadingStars] ∨ ∀ before name after, (concat front).Matches before →
        (concat back).Matches after → (concat tokens).Matches (before ++ name ++ after)) ∧
      (lead.head? = some '/' → ∀ word, (concat tokens).Matches word →
        ∃ start after, word = start ++ after ∧ (concat back).Matches after) := by
  obtain ⟨stars, below, htakes⟩ := exists_takesSlash hlead hfront
  rcases htrail with rfl | htrail
  · have hnil : (concat back).Matches [] := by
      cases hback
      exact matches_concat_nil.mpr rfl
    have hend (word : List UInt8) : ∃ start after, word = start ++ after ∧ (concat back).Matches after :=
      ⟨word, [], (List.append_nil word).symm, hnil⟩
    rw [List.append_nil, htakes.finish]
    rcases htakes.kind with ⟨rfl, rfl⟩ | rfl
    · exact ⟨_, Reader.read_leadingStars_twoStars, .inl rfl, fun _ word _ => hend word⟩
    · refine ⟨_, Reader.read_innerStars_twoStars below, .inr ?_, fun _ word _ => hend word⟩
      intro before name after hfirst _
      obtain ⟨start, slash, rfl, hstart, hslash⟩ := htakes.words before hfirst
      have hhead : (slash ++ (name ++ after)).head? = some slashByte := by
        simp [List.head?_append, hslash rfl]
      rw [List.append_assoc, List.append_assoc]
      exact matches_concat_append.mpr ⟨start, _, hstart, matches_trailingStars_of_head? hhead, rfl⟩
  · obtain ⟨rest, rfl⟩ := List.head?_eq_some_iff.mp htrail
    obtain ⟨tokens, hread, htokens, hends⟩ := exists_read_of_stars htakes.kind (.inl rfl) hback
    refine ⟨tokens, (htakes.read rest).trans hread, htokens.imp_right fun hwords => ?_,
      fun hhead => hends (htakes.inner hhead)⟩
    intro before name after hfirst hafter
    obtain ⟨start, slash, rfl, hstart, hslash⟩ := htakes.words before hfirst
    have hword := hwords start (slash ++ name) after hstart
      (fun hinner => by simp [List.head?_append, hslash hinner]) hafter
    simpa using hword

/-- Two stars or a single one, as the segments that stand for names of any kind. -/
def IsStars (piece : List Char) : Prop := piece = ['*'] ∨ piece = twoStars

instance (piece : List Char) : Decidable (IsStars piece) := instDecidableOr

/-- A slash and stars behind it match a slash and a name, whatever the name is; what they and a text behind
them match ends in what the text matches. -/
theorem exists_parse_slash_stars {piece : List Char} (hpiece : IsStars piece)
    (htrail : trail = [] ∨ trail.head? = some '/') (hback : parse false trail = .ok back) :
    ∃ tokens, parse false (['/'] ++ (piece ++ trail)) = .ok tokens ∧
      (∀ name after, slashByte ∉ name → (concat back).Matches after →
        (concat tokens).Matches ([slashByte] ++ name ++ after)) ∧
      ∀ word, (concat tokens).Matches word →
        ∃ start after, word = start ++ after ∧ (concat back).Matches after := by
  have hlead : ['/'] = [] ∨ ['/'].getLast? = some '/' := .inr rfl
  have hslash : parse false ['/'] = .ok [.literal '/'] := rfl
  rcases hpiece with rfl | rfl
  · have hparse := parse_append_segment hlead hslash (by decide : IsPlain ['*']) (by decide) (by decide)
      htrail
    rw [hback] at hparse
    refine ⟨_, hparse, fun name after hname hafter => ?_, fun word hword => ?_⟩
    · refine matches_concat_append.mpr ⟨_, after, ?_, hafter, rfl⟩
      refine matches_concat_append.mpr ⟨_, name, matches_literal_slash.mpr rfl, ?_, rfl⟩
      exact matches_concat_singleton.mpr (matches_star_withinSegment.mpr hname)
    · obtain ⟨start, after, -, hafter, rfl⟩ := matches_concat_append.mp hword
      exact ⟨start, after, rfl, hafter⟩
  · obtain ⟨tokens, hparse, htokens, hends⟩ := exists_parse_twoStars hlead hslash htrail hback
    refine ⟨tokens, hparse, fun name after _ hafter => ?_, hends rfl⟩
    have hne : tokens ≠ [.leadingStars] := by
      rintro rfl
      exact absurd (startsWithSlash_of_parse hparse) (by decide)
    exact htokens.resolve_left hne _ name after (matches_literal_slash.mpr rfl) hafter

/-- Stars between slashes match as many names as there are of them, whatever the names are; what they and a
text behind them match ends in what the text matches. -/
theorem exists_parse_stars {pieces : List (List Char)} (hpieces : ∀ piece ∈ pieces, IsStars piece)
    (htrail : trail = [] ∨ trail.head? = some '/') (hback : parse false trail = .ok back) :
    ∃ tokens, parse false (pieces.flatMap ('/' :: ·) ++ trail) = .ok tokens ∧
      (∀ names after, names.length = pieces.length → (∀ name ∈ names, slashByte ∉ name) →
        (concat back).Matches after → (concat tokens).Matches (slashed names ++ after)) ∧
      ∀ word, (concat tokens).Matches word →
        ∃ start after, word = start ++ after ∧ (concat back).Matches after := by
  induction pieces with
  | nil =>
    refine ⟨back, hback, fun names after hlength _ hafter => ?_, fun word hword => ⟨[], word, rfl, hword⟩⟩
    rwa [List.length_eq_zero_iff.mp hlength]
  | cons piece pieces ih =>
    obtain ⟨hpiece, hrest⟩ := List.forall_mem_cons.mp hpieces
    obtain ⟨later, hlater, hnames, hlast⟩ := ih hrest
    have hboundary : pieces.flatMap ('/' :: ·) ++ trail = [] ∨
        (pieces.flatMap ('/' :: ·) ++ trail).head? = some '/' := by
      cases pieces with
      | nil => exact htrail
      | cons => exact .inr rfl
    obtain ⟨tokens, hparse, hfirst, hends⟩ := exists_parse_slash_stars hpiece hboundary hlater
    refine ⟨tokens, by simpa using hparse, fun names after hlength hnone hafter => ?_, fun word hword => ?_⟩
    · obtain ⟨name, names, rfl⟩ := List.exists_cons_of_length_eq_add_one hlength
      obtain ⟨hname, hnone⟩ := List.forall_mem_cons.mp hnone
      have hword := hfirst name _ hname (hnames names after (by simpa using hlength) hnone hafter)
      simpa [slashed_cons] using hword
    · obtain ⟨start, _, rfl, hmiddle⟩ := hends word hword
      obtain ⟨middle, after, rfl, hafter⟩ := hlast _ hmiddle
      exact ⟨start ++ middle, after, (List.append_assoc _ _ _).symm, hafter⟩

end Between

end TreeLayout.Glob
