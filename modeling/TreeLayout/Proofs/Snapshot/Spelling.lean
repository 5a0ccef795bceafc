import TreeLayout.Proofs.Inquiry
import TreeLayout.Proofs.Snapshot.Query

/-!
# Spellings of a question

A `./` before a pattern means nothing, and slashes behind it turn the question to directories, however
many they are. The glob is the same in every spelling, so all spellings are answered or none is
(`Snapshot.pathsMatching_spellings`).
-/

namespace TreeLayout

open Text

namespace Text

/-- Some slashes in a row. -/
def slashes (count : Nat) : String := .ofList (List.replicate count '/')

theorem toList_append_slashes (text : String) (count : Nat) :
    (text ++ slashes count).toList = text.toList ++ List.replicate count '/' := by
  rw [String.toList_append, slashes, String.toList_ofList]

theorem dropSlashes_append_replicate (text : List Char) (count : Nat) :
    dropSlashes (text ++ List.replicate count '/') = dropSlashes text := by
  induction count with
  | zero => rw [List.replicate_zero, List.append_nil]
  | succ count ih =>
    rw [List.replicate_succ', ← List.append_assoc, dropSlashes_append_slash, ih]

theorem endsInSlash_append_replicate (text : List Char) {count : Nat} (h : 1 ≤ count) :
    endsInSlash (text ++ List.replicate count '/') = true := by
  obtain ⟨more, rfl⟩ := Nat.exists_eq_add_of_le' h
  rw [List.replicate_succ', ← List.append_assoc, endsInSlash_append (List.cons_ne_nil _ _)]
  rfl

/-- Slashes behind a text make no leading `./`, unless the text is a dot. -/
theorem dropDotSlash_append_replicate {text : List Char} (h : text ≠ ['.']) (count : Nat) :
    dropDotSlash (text ++ List.replicate count '/') =
      dropDotSlash text ++ List.replicate count '/' := by
  by_cases hstart : ['.', '/'] <+: text
  · obtain ⟨rest, rfl⟩ := hstart
    rfl
  · rw [dropDotSlash_eq_self hstart, dropDotSlash_eq_self]
    intro hprefix
    rcases text with _ | ⟨a, _ | ⟨b, text⟩⟩
    · have hdot : '.' ∈ List.replicate count '/' := hprefix.subset (List.mem_cons_self ..)
      exact absurd (List.eq_of_mem_replicate hdot) (by decide)
    · exact h (by rw [(List.cons_prefix_cons.mp hprefix).1])
    · exact hstart (by simpa using hprefix)

end Text

namespace EntryQuery

/-- A leading `./` means nothing. -/
theorem ofPattern_dotSlash {pattern : String} (hstart : ¬ ['.', '/'] <+: pattern.toList) :
    ofPattern ("./" ++ pattern) = ofPattern pattern := by
  have hdrop : dropDotSlash ("./" ++ pattern).toList = dropDotSlash pattern.toList := by
    rw [String.toList_append, dropDotSlash_eq_self hstart]
    rfl
  rw [ofPattern, ofPattern, hdrop]

/-- A pattern without marks asks for the entries of every kind. -/
theorem ofPattern_of_unmarked {pattern : String} (hstart : ¬ ['.', '/'] <+: pattern.toList)
    (hend : endsInSlash pattern.toList = false) :
    ofPattern pattern = (Glob.compile pattern).map (⟨·, false⟩) := by
  rw [ofPattern, dropDotSlash_eq_self hstart, dropSlashes_eq_self hend, hend, String.ofList_toList]
  cases Glob.compile pattern <;> rfl

/-- Slashes behind a pattern turn its question to directories. -/
theorem ofPattern_append_slashes {pattern : String} (hdot : pattern ≠ ".") {count : Nat}
    (hcount : 1 ≤ count) : ofPattern (pattern ++ slashes count) =
      (ofPattern pattern).map fun query => { query with directoriesOnly := true } := by
  have hne : pattern.toList ≠ ['.'] := fun h => hdot (String.toList_inj.mp h)
  rw [ofPattern, ofPattern, toList_append_slashes, dropDotSlash_append_replicate hne,
    dropSlashes_append_replicate, endsInSlash_append_replicate _ hcount]
  cases Glob.compile (.ofList (dropSlashes (dropDotSlash pattern.toList))) <;> rfl

/-- Further slashes behind a question about directories change nothing. -/
theorem ofPattern_append_slashes_of_endsInSlash {pattern : String}
    (hends : endsInSlash (dropDotSlash pattern.toList) = true) (count : Nat) :
    ofPattern (pattern ++ slashes count) = ofPattern pattern := by
  cases count with
  | zero => rw [slashes, List.replicate_zero, String.ofList_nil, String.append_empty]
  | succ count =>
    have hdot : pattern ≠ "." := by
      rintro rfl
      cases hends
    rw [ofPattern_append_slashes hdot (Nat.le_add_left 1 count)]
    cases hquery : ofPattern pattern with
    | error error => rfl
    | ok query =>
      obtain ⟨tokens, -, rfl⟩ := exists_parse_of_ofPattern hquery
      rw [hends]
      rfl

end EntryQuery

namespace Snapshot

variable (snapshot : Snapshot) {pattern : String}

/-- The answers follow from the question. -/
theorem pathsMatching_eq_map : snapshot.pathsMatching pattern =
    (EntryQuery.ofPattern pattern).map fun query =>
      (snapshot.entries.filter query.selects).map query.report := by
  rw [pathsMatching]
  cases EntryQuery.ofPattern pattern <;> rfl

theorem anyMatching_eq_map : snapshot.anyMatching pattern =
    (EntryQuery.ofPattern pattern).map fun query => snapshot.entries.any query.selects := by
  rw [anyMatching]
  cases EntryQuery.ofPattern pattern <;> rfl

/-- Answers about directories end in slashes. -/
theorem endsInSlash_of_mem_pathsMatching {paths : List String}
    (hends : endsInSlash (dropDotSlash pattern.toList) = true)
    (h : snapshot.pathsMatching pattern = .ok paths) :
    ∀ path ∈ paths, endsInSlash path.toList = true := by
  obtain ⟨query, hquery, rfl⟩ := exists_query_of_pathsMatching h
  obtain ⟨tokens, -, rfl⟩ := EntryQuery.exists_parse_of_ofPattern hquery
  intro path hpath
  obtain ⟨entry, -, rfl⟩ := List.mem_map.mp hpath
  rw [EntryQuery.report, if_pos hends]
  exact endsInSlash_append_slash entry.path

section Spellings

variable (hstart : ¬ ['.', '/'] <+: pattern.toList) (hend : endsInSlash pattern.toList = false)

include hstart hend

/-- A pattern without marks fails as its glob does. -/
theorem pathsMatching_eq_error_iff_compile {error : Glob.Error} :
    snapshot.pathsMatching pattern = .error error ↔ Glob.compile pattern = .error error := by
  rw [pathsMatching_eq_error_iff, EntryQuery.ofPattern_of_unmarked hstart hend, map_eq_error_iff]

variable (hdot : pattern ≠ ".") {count : Nat} (hcount : 1 ≤ count)

include hdot hcount

/-- The question of a pattern with slashes behind it. -/
theorem ofPattern_append_slashes_of_unmarked : EntryQuery.ofPattern (pattern ++ slashes count) =
    (Glob.compile pattern).map (⟨·, true⟩) := by
  rw [EntryQuery.ofPattern_append_slashes hdot hcount, EntryQuery.ofPattern_of_unmarked hstart hend]
  cases Glob.compile pattern <;> rfl

/-- A leading `./` changes no answer. Slashes behind a pattern, however many, select the directories
that its glob matches, in the same order and each with one slash. No spelling changes whether there are
answers, nor the error if there are none. -/
theorem pathsMatching_spellings :
    (snapshot.pathsMatching ("./" ++ pattern) = snapshot.pathsMatching pattern ∧
      snapshot.anyMatching ("./" ++ pattern) = snapshot.anyMatching pattern) ∧
    (snapshot.pathsMatching (pattern ++ slashes count) = (Glob.compile pattern).map fun glob =>
        (snapshot.entries.filter fun entry =>
          entry.isDirectory && glob.isMatch entry.path.toList).map (·.path ++ "/")) ∧
    (snapshot.anyMatching (pattern ++ slashes count) = (Glob.compile pattern).map fun glob =>
        snapshot.entries.any fun entry => entry.isDirectory && glob.isMatch entry.path.toList) ∧
    ∀ error,
      (snapshot.pathsMatching (pattern ++ slashes count) = .error error ↔
        snapshot.pathsMatching pattern = .error error) ∧
      (snapshot.anyMatching (pattern ++ slashes count) = .error error ↔
        snapshot.pathsMatching pattern = .error error) := by
  have hquestion := ofPattern_append_slashes_of_unmarked hstart hend hdot hcount
  refine ⟨⟨?_, ?_⟩, ?_, ?_, fun error => ⟨?_, ?_⟩⟩
  · rw [pathsMatching_eq_map, pathsMatching_eq_map, EntryQuery.ofPattern_dotSlash hstart]
  · rw [anyMatching_eq_map, anyMatching_eq_map, EntryQuery.ofPattern_dotSlash hstart]
  · rw [pathsMatching_eq_map, hquestion]
    cases Glob.compile pattern <;> rfl
  · rw [anyMatching_eq_map, hquestion]
    cases Glob.compile pattern <;> rfl
  · rw [pathsMatching_eq_error_iff, hquestion, map_eq_error_iff,
      pathsMatching_eq_error_iff_compile snapshot hstart hend]
  · rw [anyMatching_eq_error_iff, hquestion, map_eq_error_iff,
      pathsMatching_eq_error_iff_compile snapshot hstart hend]

end Spellings

/-- Three slashes behind a class and a wildcard, among files and directories with such names. -/
theorem pathsMatching_spellings_directories :
    Snapshot.pathsMatching ⟨[⟨"lib", .directory⟩, ⟨"lib/a", .file⟩, ⟨"lib/bin", .directory⟩,
      ⟨"lib/c", .directory⟩]⟩ ("lib/[ab]*" ++ slashes 3) = .ok ["lib/bin/"] := by
  have hspellings := @pathsMatching_spellings
    ⟨[⟨"lib", .directory⟩, ⟨"lib/a", .file⟩, ⟨"lib/bin", .directory⟩, ⟨"lib/c", .directory⟩]⟩
    "lib/[ab]*" (by decide) (by decide) (by decide) 3 (by decide)
  exact hspellings.2.1.trans (by decide +kernel)

end Snapshot

end TreeLayout
