import TreeLayout.Proofs.Glob.Segmentwise
import TreeLayout.Snapshot.Query

/-!
# What a pattern asks for

A pattern is a question exactly if the text between its leading `./` and its last slashes is a glob.
The answers of a snapshot are the entries whose bytes are words of that glob, in the snapshot's
order, and the two kinds of answers agree.
-/

namespace TreeLayout

open Text

namespace Glob

/-- The words of the tokens are matched. -/
theorem isMatch_of_concat {glob : Glob} {path : List Char}
    (h : (concat glob.tokens).Matches (bytes path)) : glob.isMatch path = true := by
  rw [isMatch, Regular.accepts_iff, toRegular]
  split
  · exact Regular.matches_anything _
  · exact h

/-- Apart from a glob of leading stars, only the words of the tokens are matched. -/
theorem concat_of_isMatch {glob : Glob} {path : List Char} (hstars : glob.tokens ≠ [.leadingStars])
    (h : glob.isMatch path = true) : (concat glob.tokens).Matches (bytes path) := by
  rwa [isMatch, Regular.accepts_iff, toRegular, if_neg hstars] at h

end Glob

namespace EntryQuery

/-- The part of a pattern that is a glob. -/
def globText (pattern : String) : List Char := dropSlashes (dropDotSlash pattern.toList)

/-- A pattern whose glob can be read is a question. -/
theorem ofPattern_of_parse {pattern : String} {tokens : List Glob.Token}
    (h : Glob.parse false (globText pattern) = .ok tokens) :
    ofPattern pattern = .ok ⟨⟨.ofList (globText pattern), tokens⟩,
      endsInSlash (dropDotSlash pattern.toList)⟩ := by
  rw [globText] at h
  simp only [ofPattern, Glob.compile, Glob.compileWith, String.toList_ofList, h]
  rfl

/-- The glob of a question can be read. -/
theorem exists_parse_of_ofPattern {pattern : String} {query : EntryQuery}
    (h : ofPattern pattern = .ok query) :
    ∃ tokens, Glob.parse false (globText pattern) = .ok tokens ∧
      query = ⟨⟨.ofList (globText pattern), tokens⟩, endsInSlash (dropDotSlash pattern.toList)⟩ := by
  cases hparse : Glob.parse false (globText pattern) with
  | ok tokens =>
    rw [ofPattern_of_parse hparse] at h
    cases h
    exact ⟨tokens, rfl, rfl⟩
  | error fault =>
    rw [globText] at hparse
    simp only [ofPattern, Glob.compile, Glob.compileWith, String.toList_ofList, hparse] at h
    cases h

end EntryQuery

namespace Snapshot

/-- The answers to a question, one for each entry that it selects. -/
theorem pathsMatching_of_ofPattern {pattern : String} {query : EntryQuery}
    (h : EntryQuery.ofPattern pattern = .ok query) (snapshot : Snapshot) :
    snapshot.pathsMatching pattern =
      .ok ((snapshot.entries.filter query.selects).map query.report) := by
  rw [pathsMatching, h]
  rfl

/-- Only a question has answers. -/
theorem exists_query_of_pathsMatching {snapshot : Snapshot} {pattern : String}
    {paths : List String} (h : snapshot.pathsMatching pattern = .ok paths) :
    ∃ query, EntryQuery.ofPattern pattern = .ok query ∧
      paths = (snapshot.entries.filter query.selects).map query.report := by
  cases hquery : EntryQuery.ofPattern pattern with
  | ok query =>
    rw [pathsMatching_of_ofPattern hquery] at h
    cases h
    exact ⟨query, rfl, rfl⟩
  | error error =>
    rw [pathsMatching, hquery] at h
    cases h

/-- Whether there is an answer is known from the list of all answers. -/
theorem anyMatching_of_pathsMatching {snapshot : Snapshot} {pattern : String} {paths : List String}
    (h : snapshot.pathsMatching pattern = .ok paths) :
    snapshot.anyMatching pattern = .ok !paths.isEmpty := by
  obtain ⟨query, hquery, rfl⟩ := exists_query_of_pathsMatching h
  rw [anyMatching, hquery]
  refine congrArg Except.ok ?_
  rw [Bool.eq_iff_iff]
  simp

section Failure

variable (snapshot : Snapshot) {pattern : String} {error : Glob.Error}

/-- Whether paths can be asked for depends on the pattern alone. -/
theorem pathsMatching_eq_error_iff : snapshot.pathsMatching pattern = .error error ↔
    EntryQuery.ofPattern pattern = .error error := by
  rw [pathsMatching]
  cases EntryQuery.ofPattern pattern <;> simp [bind, Except.bind, pure, Except.pure]

/-- Whether existence can be asked for depends on the pattern alone. -/
theorem anyMatching_eq_error_iff : snapshot.anyMatching pattern = .error error ↔
    EntryQuery.ofPattern pattern = .error error := by
  rw [anyMatching]
  cases EntryQuery.ofPattern pattern <;> simp [bind, Except.bind, pure, Except.pure]

/-- Existence is what the list of all answers tells, and fails as the list does. -/
theorem anyMatching_eq_existence (pattern : String) :
    snapshot.anyMatching pattern = (Matcher.ofPaths snapshot.pathsMatching).existence pattern := by
  change _ = snapshot.pathsMatching pattern >>= fun paths => pure !paths.isEmpty
  cases hpaths : snapshot.pathsMatching pattern with
  | ok paths => exact anyMatching_of_pathsMatching hpaths
  | error error =>
    exact snapshot.anyMatching_eq_error_iff.mpr (snapshot.pathsMatching_eq_error_iff.mp hpaths)

end Failure

/-- A plain pattern always has answers. They are the entries that its segments match, one segment of
the path after the other; behind a slash at its end, they are the directories among them. -/
theorem pathsMatching_of_isPlain {pattern : String} (hplain : Glob.IsPlain pattern.toList)
    (snapshot : Snapshot) : snapshot.pathsMatching pattern =
      .ok ((snapshot.entries.filter fun entry =>
        (!endsInSlash (dropDotSlash pattern.toList) || entry.isDirectory) &&
          Glob.matchesPath (EntryQuery.globText pattern) entry.path.toList).map fun entry =>
        if endsInSlash (dropDotSlash pattern.toList) then entry.path ++ "/" else entry.path) := by
  have hglob : Glob.IsPlain (EntryQuery.globText pattern) := by
    intro c hc
    have hlead : EntryQuery.globText pattern <+: dropDotSlash pattern.toList :=
      dropSlashes_isPrefix _
    exact hplain c ((dropDotSlash_isSuffix _).subset (hlead.subset hc))
  obtain ⟨tokens, hparse⟩ := Glob.exists_parse_of_isPlain hglob
  rw [pathsMatching_of_ofPattern (EntryQuery.ofPattern_of_parse hparse)]
  let glob : Glob := ⟨.ofList (EntryQuery.globText pattern), tokens⟩
  have hselects : EntryQuery.selects ⟨glob, endsInSlash (dropDotSlash pattern.toList)⟩ =
      fun entry => (!endsInSlash (dropDotSlash pattern.toList) || entry.isDirectory) &&
        Glob.matchesPath (EntryQuery.globText pattern) entry.path.toList := by
    funext entry
    have hparse : Glob.parse false (EntryQuery.globText pattern) = .ok glob.tokens := hparse
    rw [EntryQuery.selects, Glob.isMatch_eq_matchesPath hglob (endsInSlash_dropSlashes _) hparse]
  rw [hselects]
  rfl

/-- Stars in a row, runs within a segment, and a mark for each byte of a character. -/
theorem pathsMatching_of_isPlain_bytes :
    Glob.IsPlain "./a/**/**/??*.rs".toList ∧
    Snapshot.pathsMatching ⟨[⟨"a", .directory⟩, ⟨"a/b", .directory⟩, ⟨"a/b/é.rs", .file⟩,
      ⟨"a/x.rs", .file⟩]⟩ "./a/**/**/??*.rs" = .ok ["a/b/é.rs"] := by
  have hplain : Glob.IsPlain "./a/**/**/??*.rs".toList := by decide
  exact ⟨hplain, (pathsMatching_of_isPlain hplain _).trans (by decide +kernel)⟩

end Snapshot

end TreeLayout
