import TreeLayout.Proofs.Glob.Segmentwise
import TreeLayout.Proofs.IgnoreList.Levels
import TreeLayout.Proofs.Text.Blanks
import TreeLayout.Proofs.Text.ByteOrder

/-!
# Plain names in an ignore list

A line that is a plain name speaks of the paths that end in it; with a slash before it, only of the path
that is nothing else. The levels of a path end in its segments one after the other, so what such a line
ignores is a question about segments (`IgnoreList.ignoresExactly_name`).
-/

namespace TreeLayout

open Text

/-- Whether a text is a name that a line of an ignore list spells as it stands. -/
structure IsPlainName (name : List Char) : Prop where
  ne_nil : name ≠ []
  isPlain : Glob.IsPlain name
  noSlash : '/' ∉ name
  noWildcard : ∀ c ∈ name, c ≠ '?' ∧ c ≠ '*'
  start : name.head? ≠ some '#' ∧ name.head? ≠ some '!'
  finish : ∀ c ∈ name.getLast?, isBlank c = false

/-- A plain name is no recursive wildcard. -/
theorem IsPlainName.ne_twoStars {name : List Char} (h : IsPlainName name) : name ≠ Glob.twoStars := by
  intro hstars
  subst hstars
  exact (h.noWildcard '*' (by decide)).2 rfl

theorem IsPlainName.endsInSlash {name : List Char} (h : IsPlainName name) :
    Text.endsInSlash name = false :=
  decide_eq_false fun hlast => h.noSlash (List.mem_of_getLast? hlast)

namespace Glob

variable {opening : Opening} {name : List Char} {names : List (List Char)}

/-- The first segment of a glob is read character by character, whether or not brackets are lenient. -/
theorem parse_opening_append (h : opening.IsFirst) (lenient : Bool) (hplain : IsPlain name)
    (hslash : '/' ∉ name) (hstars : name ≠ twoStars) :
    parse lenient (opening.text ++ name) = .ok (opening.tokens ++ name.map Token.ofChar) := by
  have hread (reader : Reader) (hmode : reader.mode = .text) (houter : reader.outer = []) :
      reader.read name = .ok (reader.level.tokens.reverse ++ name.map Token.ofChar) := by
    have hname := reader.read_segment hmode houter hplain hslash (.inl hstars) (.inl rfl)
    rw [List.append_nil, Reader.foldl_advance, Reader.read_nil] at hname
    rw [hname]
    simp [Reader.finish, Reader.inGroup, hmode, houter, pure, Except.pure, bind, Except.bind]
  rcases h with rfl | rfl
  · exact hread { lenient } rfl rfl
  · exact hread { lenient, level := ⟨[], [.leadingStars]⟩, last := some '/' } rfl rfl

/-- A name without wildcards matches itself. -/
theorem matchesName_bytes (hwild : ∀ c ∈ name, c ≠ '?' ∧ c ≠ '*') {other : List Char}
    (hslash : '/' ∉ other) : matchesName name (bytes other) = true ↔ other = name := by
  rw [matchesName_iff name (slashByte_notMem_bytes hslash), matches_literals hwild, bytes_inj]

/-- A glob that is a name matches the names that are no more than it. -/
theorem matchesSegments_name (hwild : ∀ c ∈ name, c ≠ '?' ∧ c ≠ '*')
    (hnames : ∀ other ∈ names, '/' ∉ other) (hstars : name ≠ twoStars) :
    matchesSegments false [name] (names.map bytes) = true ↔ names = [name] := by
  rw [matchesSegments_cons hstars]
  constructor
  · intro h
    obtain ⟨word, later, hcut, hword, hlater⟩ := h
    obtain ⟨other, rest, rfl, rfl, rfl⟩ := List.map_eq_cons_iff.mp hcut
    obtain rfl : rest = [] := by simpa [matchesSegments] using hlater
    rw [(matchesName_bytes hwild (hnames other List.mem_cons_self)).mp hword]
  · intro h
    subst h
    exact ⟨_, [], rfl, (matchesName_bytes hwild (hnames name List.mem_cons_self)).mpr rfl, rfl⟩

/-- Behind leading stars, a name matches the names that end in it. -/
theorem matchesSegments_twoStars_name (hwild : ∀ c ∈ name, c ≠ '?' ∧ c ≠ '*')
    (hnames : ∀ other ∈ names, '/' ∉ other) (hstars : name ≠ twoStars) :
    matchesSegments false [twoStars, name] (names.map bytes) = true ↔ names.getLast? = some name := by
  rw [matchesSegments_twoStars (List.cons_ne_nil name []), List.getLast?_eq_some_iff]
  constructor
  · intro h
    obtain ⟨skipped, later, hcut, hlater⟩ := h
    obtain ⟨front, back, rfl, rfl, rfl⟩ := List.map_eq_append_iff.mp hcut
    have hback : ∀ other ∈ back, '/' ∉ other := fun other hother =>
      hnames other (List.mem_append_right front hother)
    exact ⟨front, by rw [(matchesSegments_name hwild hback hstars).mp hlater]⟩
  · intro h
    obtain ⟨front, rfl⟩ := h
    have hback : ∀ other ∈ [name], '/' ∉ other := fun other hother =>
      hnames other (List.mem_append_right front hother)
    exact ⟨front.map bytes, [name].map bytes, List.map_append,
      (matchesSegments_name hwild hback hstars).mpr rfl⟩

end Glob

namespace Text

variable {path : List Char}

/-- The segments of a level below the root are the first ones of the path. -/
theorem segments_upTo (path : List Char) (depth : Nat) :
    segments (upTo path (depth + 1)) = (segments path).take (depth + 1) := by
  refine split_join ?_ fun segment hsegment => ?_
  · simp [split_ne_nil, segments]
  · exact notMem_of_mem_split (List.mem_of_mem_take hsegment)

/-- No level of a well-formed path ends in the segment `..`. -/
theorem lastSegment_upTo_ne (hformed : IsWellFormed path) (depth : Nat) :
    lastSegment (upTo path depth) ≠ ['.', '.'] := by
  cases depth with
  | zero => exact (List.cons_ne_nil _ _).symm
  | succ depth =>
    rw [lastSegment, segments_upTo, List.getLastD_eq_getLast?]
    intro hdots
    cases hlast : ((segments path).take (depth + 1)).getLast? with
    | none => simp [hlast] at hdots
    | some segment =>
      rw [hlast, Option.getD_some] at hdots
      exact (hformed segment (List.mem_of_mem_take (List.mem_of_getLast? hlast))).2.2 hdots

/-- A level of a path ends in the last of its segments. -/
theorem segments_upTo_eq_concat_iff {name : List Char} (hname : name ≠ []) {depth : Nat}
    (hdepth : depth ≤ (segments path).length) {front : List (List Char)} :
    segments (upTo path depth) = front ++ [name] ↔
      ∃ index, depth = index + 1 ∧ (segments path)[index]? = some name ∧
        front = (segments path).take index := by
  cases depth with
  | zero =>
    have hroot : segments (upTo path 0) = [[]] := rfl
    rw [hroot]
    constructor
    · intro h
      obtain ⟨-, hlast⟩ := List.append_inj' (show [] ++ [[]] = front ++ [name] from h) rfl
      exact absurd (List.cons.inj hlast).1.symm hname
    · intro h
      obtain ⟨index, hindex, -⟩ := h
      cases hindex
  | succ index =>
    obtain ⟨last, hlast⟩ : ∃ last, (segments path)[index]? = some last :=
      ⟨_, List.getElem?_eq_getElem hdepth⟩
    rw [segments_upTo, List.take_add_one, hlast]
    constructor
    · intro h
      obtain ⟨hfront, hsegment⟩ := List.append_inj' h rfl
      exact ⟨index, rfl, by rw [hlast, (List.cons.inj hsegment).1], hfront.symm⟩
    · intro h
      obtain ⟨index, hindex, hsegment, rfl⟩ := h
      obtain rfl := Nat.succ.inj hindex
      rw [← hlast, hsegment]
      rfl

end Text

namespace IgnoreLine

variable {name : List Char}

/-- A name with a slash before it that anchors it, and a slash after it that limits it to directories. -/
def written (anchored directoriesOnly : Bool) (name : List Char) : List Char :=
  (if anchored then ['/'] else []) ++ (name ++ if directoriesOnly then ['/'] else [])

/-- What comes before a name in its glob. -/
def openingOf (anchored : Bool) : Glob.Opening := if anchored then .start else .leadingStars

/-- The line that a name spells. -/
def ofName (anchored directoriesOnly : Bool) (name : List Char) : IgnoreLine where
  glob :=
    ⟨.ofList ((openingOf anchored).text ++ name),
      (openingOf anchored).tokens ++ name.map Glob.Token.ofChar⟩
  reincludes := false
  directoriesOnly

theorem openingOf_isFirst (anchored : Bool) : (openingOf anchored).IsFirst := by
  cases anchored
  · exact .inr rfl
  · exact .inl rfl

/-- A line that does not end in a blank is not trimmed. -/
theorem trimmed_eq_self {line : List Char} (h : ∀ c ∈ line.getLast?, isBlank c = false) :
    trimmed line = line := by
  unfold trimmed
  split
  · rfl
  · exact trimEnd_eq_self h

section Name

variable (h : IsPlainName name)

include h

/-- A name is meant at every depth unless it is anchored. -/
theorem globText_name (anchored : Bool) : globText anchored name = (openingOf anchored).text ++ name := by
  have hstar {c : Char} (hc : c ∈ name) : ('*' == c) = false :=
    beq_eq_false_iff_ne.mpr fun heq => (h.noWildcard c hc).2 heq.symm
  have hstart : ['*', '*', '/'].isPrefixOf name = false := by
    cases name with
    | nil => rfl
    | cons c rest => rw [List.isPrefixOf, hstar List.mem_cons_self, Bool.false_and]
  have hend (front : List Char) : ['*', '*', '/'].isPrefixOf (front ++ name).reverse = false := by
    obtain ⟨start, c, rfl⟩ := (List.eq_nil_or_concat name).resolve_left h.ne_nil
    rw [List.concat_eq_append, ← List.append_assoc, List.reverse_concat, List.isPrefixOf,
      hstar (by simp), Bool.false_and]
  have hslash : name.contains '/' = false := by simpa using h.noSlash
  have hdeep : (anchored || name.contains '/' ||
      (decide (name = ['*', '*']) || ['*', '*', '/'].isPrefixOf name)) = anchored := by
    rw [decide_eq_false (show name ≠ ['*', '*'] from h.ne_twoStars), hstart, hslash]
    simp
  unfold globText
  dsimp only
  rw [hdeep]
  cases anchored with
  | false => exact if_neg (Bool.eq_false_iff.mp (hend ['*', '*', '/']))
  | true => exact if_neg (Bool.eq_false_iff.mp (hend []))

/-- A name without the mark that anchors it is read. -/
theorem ofBody_name (line : List Char) (anchored directoriesOnly : Bool) :
    ofBody line (name ++ if directoriesOnly then ['/'] else []) false anchored =
      .ok (ofName anchored directoriesOnly name) := by
  have hslash : endsInSlash (name ++ if directoriesOnly then ['/'] else []) = directoriesOnly := by
    cases directoriesOnly with
    | true => simp [endsInSlash]
    | false =>
      rw [if_neg (by decide), List.append_nil]
      exact h.endsInSlash
  have hbody : (if directoriesOnly then
      dropLastOf '\\' (name ++ if directoriesOnly then ['/'] else []).dropLast
      else name ++ if directoriesOnly then ['/'] else []) = name := by
    cases directoriesOnly with
    | true =>
      have hlast : name.getLast? ≠ some '\\' := fun hlast =>
        (h.isPlain '\\' (List.mem_of_getLast? hlast)).2.2.2 rfl
      simp [dropLastOf, hlast]
    | false => simp
  have hparse := Glob.parse_opening_append (openingOf_isFirst anchored) true h.isPlain h.noSlash
    h.ne_twoStars
  unfold ofBody
  simp only [hslash, hbody, globText_name h, Glob.compileWith, String.toList_ofList, hparse]
  rfl

/-- A name spells its line. -/
theorem parse_written (anchored directoriesOnly : Bool) :
    parse (written anchored directoriesOnly name) =
      .ok (some (ofName anchored directoriesOnly name)) := by
  have htrimmed : trimmed (written anchored directoriesOnly name) =
      written anchored directoriesOnly name := by
    apply trimmed_eq_self
    intro c hc
    rw [written, ← List.append_assoc] at hc
    cases directoriesOnly with
    | true =>
      rw [if_pos rfl, List.getLast?_concat] at hc
      obtain rfl := Option.mem_some.mp hc
      decide
    | false =>
      rw [if_neg Bool.false_ne_true, List.append_nil, List.getLast?_append_of_ne_nil _ h.ne_nil] at hc
      exact h.finish c hc
  have hbody := ofBody_name h (written anchored directoriesOnly name) anchored directoriesOnly
  unfold parse
  cases anchored with
  | true =>
    rw [if_neg (by simp [written]), htrimmed]
    exact congrArg (some <$> ·) hbody
  | false =>
    obtain ⟨c, rest, rfl⟩ := List.exists_cons_of_ne_nil h.ne_nil
    obtain ⟨hhash, hbang⟩ := h.start
    have hfirst {d : Char} {back : List Char}
        (hline : written false directoriesOnly (c :: rest) = d :: back) : c = d :=
      (List.cons.inj hline).1
    -- The first character is none of the marks that a line can start with.
    rw [if_neg (show (written false directoriesOnly (c :: rest)).head? ≠ some '#' from hhash), htrimmed]
    dsimp only
    split
    · rename_i hline
      cases hline
    · rename_i hline
      exact absurd (hfirst hline) (h.isPlain c List.mem_cons_self).2.2.2
    · rename_i hline
      exact absurd (hfirst hline) (h.isPlain c List.mem_cons_self).2.2.2
    · rename_i hline
      exact absurd (congrArg some (hfirst hline)) hbang
    · rename_i hline
      exact absurd (congrArg some (hfirst hline)) hbang
    · rename_i hline
      exact absurd (hfirst hline ▸ List.mem_cons_self) h.noSlash
    · exact congrArg (some <$> ·) hbody

/-- The glob of a name matches the paths that end in it, or only the name itself if it is anchored. -/
theorem isMatch_ofName (anchored directoriesOnly : Bool) (path : List Char) :
    (ofName anchored directoriesOnly name).glob.isMatch path = true ↔
      ∃ front, segments path = front ++ [name] ∧ (anchored = true → front = []) := by
  have hplain : Glob.IsPlain ((openingOf anchored).text ++ name) := by
    have hopening : Glob.IsPlain (openingOf anchored).text := by
      cases anchored <;> decide
    exact fun c hc => (List.mem_append.mp hc).elim (hopening c) (h.isPlain c)
  have hends : endsInSlash ((openingOf anchored).text ++ name) = false := by
    rw [endsInSlash_append h.ne_nil]
    exact h.endsInSlash
  have hparse := Glob.parse_opening_append (openingOf_isFirst anchored) false h.isPlain h.noSlash
    h.ne_twoStars
  have hnames : ∀ other ∈ segments path, '/' ∉ other := fun other hother => notMem_of_mem_split hother
  have hname : segments name = [name] := split_of_notMem h.noSlash
  have hsome : ([name].all (· = Glob.twoStars)) = false := by simpa using h.ne_twoStars
  rw [Glob.isMatch_eq_matchesPath hplain hends hparse, Glob.matchesPath]
  cases anchored with
  | true =>
    rw [show (openingOf true).text ++ name = name from rfl, hname, hsome,
      Glob.matchesSegments_name h.noWildcard hnames h.ne_twoStars]
    simp
  | false =>
    have hsegments : segments ((openingOf false).text ++ name) = [Glob.twoStars, name] := by
      rw [show (openingOf false).text ++ name = Glob.twoStars ++ '/' :: name from rfl, segments,
        split_append_cons, ← segments, ← segments, hname]
      rfl
    have hall : ([Glob.twoStars, name].all (· = Glob.twoStars)) = false := by
      simpa using h.ne_twoStars
    rw [hsegments, hall, Glob.matchesSegments_twoStars_name h.noWildcard hnames h.ne_twoStars,
      List.getLast?_eq_some_iff]
    simp

/-- The line of a name speaks of the paths that its glob matches, or of the directories among them. -/
theorem speaksOf_ofName (anchored directoriesOnly : Bool) {path : List Char}
    (hdots : lastSegment path ≠ ['.', '.']) (isDirectory : Bool) :
    (ofName anchored directoriesOnly name).speaksOf path isDirectory = true ↔
      (directoriesOnly = true → isDirectory = true) ∧
        ∃ front, segments path = front ++ [name] ∧ (anchored = true → front = []) := by
  have hset : (ofName anchored directoriesOnly name).glob.isMatchInSet path =
      (ofName anchored directoriesOnly name).glob.isMatch path := by
    rw [Glob.isMatchInSet, decide_eq_false hdots, Bool.and_false, Bool.not_false, Bool.and_true]
  rw [speaksOf, hset, Bool.and_eq_true, isMatch_ofName h]
  refine and_congr_left fun _ => ?_
  cases directoriesOnly <;> simp [ofName]

end Name

end IgnoreLine

namespace IgnoreList

variable {list : IgnoreList} {path : List Char}

/-- Without re-inclusions, the lines that speak of a path ignore it. -/
theorem verdict?_eq_some_iff (h : ∀ line ∈ list.lines, line.reincludes = false) {isDirectory : Bool}
    {answer : Bool} : list.verdict? path isDirectory = some answer ↔
      answer = true ∧ ∃ line ∈ list.lines, line.speaksOf path isDirectory = true := by
  rw [verdict?]
  cases hfind : list.lines.reverse.find? (·.speaksOf path isDirectory) with
  | none =>
    have hsilent := List.find?_eq_none.mp hfind
    simp only [List.mem_reverse] at hsilent
    simpa using fun _ => hsilent
  | some line =>
    have hmem := List.mem_reverse.mp (List.mem_of_find?_eq_some hfind)
    have hspeaks := List.find?_some hfind
    rw [Option.map_some, h line hmem, Option.some.injEq]
    constructor
    · intro hanswer
      exact ⟨hanswer.symm, line, hmem, hspeaks⟩
    · intro hanswer
      exact hanswer.1.symm

/-- Without re-inclusions, a well-formed path is ignored exactly if some line speaks of a level of it. -/
theorem exists_isIgnored_iff (hformed : IsWellFormed path)
    (h : ∀ line ∈ list.lines, line.reincludes = false) :
    ∃ answer, list.isIgnored (.ofList path) = .ok answer ∧
      (answer = true ↔ ∃ depth ≤ (segments path).length, ∃ line ∈ list.lines,
        line.speaksOf (upTo path depth) (decide (depth < (segments path).length)) = true) := by
  cases hsearch : (List.range ((segments path).length + 1)).reverse.findSome?
      (list.verdictAt? path) with
  | none =>
    refine ⟨false, ?_, ?_⟩
    · rw [isIgnored_of_isWellFormed hformed, hsearch]
      rfl
    · refine iff_of_false Bool.false_ne_true fun hspoken => ?_
      obtain ⟨depth, hdepth, hline⟩ := hspoken
      have hmem : depth ∈ (List.range ((segments path).length + 1)).reverse :=
        List.mem_reverse.mpr (List.mem_range.mpr (Nat.lt_succ_of_le hdepth))
      have hverdict : list.verdictAt? path depth = some true :=
        (verdict?_eq_some_iff h).mpr ⟨rfl, hline⟩
      rw [List.findSome?_eq_none_iff.mp hsearch depth hmem] at hverdict
      cases hverdict
  | some answer =>
    obtain ⟨depth, hlt, hverdict, -⟩ := findSome?_reverse_range.mp hsearch
    obtain ⟨hanswer, hline⟩ := (verdict?_eq_some_iff h).mp hverdict
    refine ⟨answer, ?_, iff_of_true hanswer ⟨depth, Nat.le_of_lt_succ hlt, hline⟩⟩
    rw [isIgnored_of_isWellFormed hformed, hsearch]
    rfl

/-- The line of a name speaks of a level of a path exactly if the name is a segment of the path: the first
one if it is anchored, and not the last one if it is limited to directories. -/
theorem exists_level_iff {name : List Char} (h : IsPlainName name) (anchored directoriesOnly : Bool)
    (hformed : IsWellFormed path) :
    (∃ depth ≤ (segments path).length, (IgnoreLine.ofName anchored directoriesOnly name).speaksOf
        (upTo path depth) (decide (depth < (segments path).length)) = true) ↔
      ∃ index, (segments path)[index]? = some name ∧ (anchored = true → index = 0) ∧
        (directoriesOnly = true → index + 1 < (segments path).length) := by
  have hspeaks (depth : Nat) := IgnoreLine.speaksOf_ofName h anchored directoriesOnly
    (lastSegment_upTo_ne hformed depth) (decide (depth < (segments path).length))
  simp only [hspeaks, decide_eq_true_iff]
  constructor
  · intro hspoken
    obtain ⟨depth, hdepth, hdirectory, front, hfront, hanchored⟩ := hspoken
    obtain ⟨index, rfl, hsegment, rfl⟩ := (segments_upTo_eq_concat_iff h.ne_nil hdepth).mp hfront
    refine ⟨index, hsegment, fun ha => ?_, hdirectory⟩
    exact (List.take_eq_nil_iff.mp (hanchored ha)).resolve_right (split_ne_nil path)
  · intro hsegments
    obtain ⟨index, hsegment, hanchored, hdirectory⟩ := hsegments
    obtain ⟨hdepth, -⟩ := List.getElem?_eq_some_iff.mp hsegment
    have hfront := (segments_upTo_eq_concat_iff h.ne_nil hdepth).mpr ⟨index, rfl, hsegment, rfl⟩
    refine ⟨index + 1, hdepth, hdirectory, _, hfront, fun ha => ?_⟩
    rw [hanchored ha, List.take_zero]

/-- Whether an ignore list with this line alone can be read, and ignores exactly the well-formed paths whose
segments satisfy a condition. -/
def IgnoresExactly (line : String) (condition : List (List Char) → Prop) : Prop :=
  ∃ list, ofLines [line] = .ok list ∧ ∀ path : String, IsWellFormed path.toList →
    ∃ answer, list.isIgnored path = .ok answer ∧ (answer = true ↔ condition (segments path.toList))

/-- The line of a name ignores the paths that it speaks of at some level. -/
theorem ignoresExactly_of_toList_eq {line : String} {name : List Char} (h : IsPlainName name)
    (anchored directoriesOnly : Bool)
    (hline : line.toList = IgnoreLine.written anchored directoriesOnly name)
    {condition : List (List Char) → Prop} (hcondition : ∀ segments : List (List Char),
      (∃ index, segments[index]? = some name ∧ (anchored = true → index = 0) ∧
        (directoriesOnly = true → index + 1 < segments.length)) ↔ condition segments) :
    IgnoresExactly line condition := by
  have hparse : IgnoreLine.parse line.toList =
      .ok (some (.ofName anchored directoriesOnly name)) := by
    rw [hline, IgnoreLine.parse_written h]
  refine ⟨⟨[.ofName anchored directoriesOnly name]⟩, ?_, fun path hformed => ?_⟩
  · simp [ofLines, hparse, pure, Except.pure, bind, Except.bind]
  · have hignores : ∀ other ∈ [IgnoreLine.ofName anchored directoriesOnly name],
        other.reincludes = false := List.forall_mem_singleton.mpr rfl
    obtain ⟨answer, hanswer, hiff⟩ := exists_isIgnored_iff hformed hignores
    rw [String.ofList_toList] at hanswer
    simp only [List.mem_singleton, exists_eq_left] at hiff
    have hlevel := exists_level_iff h anchored directoriesOnly hformed
    exact ⟨answer, hanswer, (hiff.trans hlevel).trans (hcondition _)⟩

/-- A plain name ignores the paths that have it as a segment. A slash before it asks for the first segment,
and a slash after it for a segment that is not the last. -/
theorem ignoresExactly_name {name : String} (h : IsPlainName name.toList) :
    IgnoresExactly name (fun segments => name.toList ∈ segments) ∧
    IgnoresExactly ("/" ++ name) (fun segments => segments.head? = some name.toList) ∧
    IgnoresExactly (name ++ "/") (fun segments => name.toList ∈ segments.dropLast) ∧
    IgnoresExactly ("/" ++ name ++ "/") (fun segments =>
      segments.head? = some name.toList ∧ 2 ≤ segments.length) := by
  refine ⟨?_, ?_, ?_, ?_⟩
  · refine ignoresExactly_of_toList_eq h false false ?_ fun segments => ?_
    · simp [IgnoreLine.written]
    · simp [List.mem_iff_getElem?]
  · refine ignoresExactly_of_toList_eq h true false ?_ fun segments => ?_
    · simp [IgnoreLine.written]
    · simp [List.head?_eq_getElem?]
  · refine ignoresExactly_of_toList_eq h false true ?_ fun segments => ?_
    · simp [IgnoreLine.written]
    · simp [List.mem_iff_getElem?, List.getElem?_dropLast, Nat.lt_sub_iff_add_lt, and_comm]
  · refine ignoresExactly_of_toList_eq h true true ?_ fun segments => ?_
    · simp [IgnoreLine.written]
    · simp [List.head?_eq_getElem?, Nat.succ_le_iff]

/-- With a slash after it, a name ignores what lies below the directories of this name. -/
theorem ignoresExactly_name_directory : IsPlainName "a b.c".toList ∧
    ∃ list, ofLines ["a b.c/"] = .ok list ∧ list.isIgnored "src/a b.c/x" = .ok true ∧
      list.isIgnored "src/a b.c" = .ok false := by
  have hfinish : ∀ c ∈ "a b.c".toList.getLast?, isBlank c = false := by
    intro c hc
    obtain rfl : 'c' = c := Option.some.inj hc
    decide
  have hname : IsPlainName "a b.c".toList :=
    ⟨by decide, by decide, by decide, by simp, by decide, hfinish⟩
  obtain ⟨-, -, ⟨list, hlist, hanswers⟩, -⟩ := ignoresExactly_name hname
  obtain ⟨inside, hinside, hinside_iff⟩ := hanswers "src/a b.c/x" (by decide)
  obtain ⟨itself, hitself, hitself_iff⟩ := hanswers "src/a b.c" (by decide)
  rw [hinside_iff.mpr (by decide)] at hinside
  rw [Bool.eq_false_iff.mpr (hitself_iff.not.mpr (by decide))] at hitself
  exact ⟨hname, list, hlist, hinside, hitself⟩

end IgnoreList

end TreeLayout
