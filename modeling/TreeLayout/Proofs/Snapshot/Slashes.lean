import TreeLayout.Proofs.Snapshot.Entries
import TreeLayout.Proofs.Snapshot.Query

/-!
# Entries whose paths end in slashes

A written path loses the slashes at its end, but the directories above it are cut off as they stand. So
paths without a name at their end come from absolute paths and from repeated slashes, and from these alone
(`Snapshot.endsInName_ofPaths`). A question about directories shows them with one slash more.
-/

namespace TreeLayout

open Text

/-- Whether the path of an entry ends in a name: it is not empty and does not end in a slash. -/
def Entry.EndsInName (entry : Entry) : Prop := entry.path ≠ "" ∧ endsInSlash entry.path.toList = false

namespace Text

/-- Two slashes in a row stand where a text that ends in a slash goes on with another one. -/
theorem twoSlashes_isInfix_iff {text : List Char} : ['/', '/'] <:+: text ↔
    ∃ front rest, endsInSlash front = true ∧ text = front ++ '/' :: rest := by
  constructor
  · intro h
    obtain ⟨front, rest, rfl⟩ := h
    refine ⟨front ++ ['/'], rest, ?_, by simp⟩
    rw [endsInSlash_append (List.cons_ne_nil _ _)]
    rfl
  · intro h
    obtain ⟨front, rest, hends, rfl⟩ := h
    obtain ⟨start, rfl⟩ := List.getLast?_eq_some_iff.mp (of_decide_eq_true hends)
    exact ⟨start, rest, by simp⟩

/-- With a slash more, a path ends in two slashes exactly if it ends in one. -/
theorem twoSlashes_isSuffix_iff {path : String} :
    ['/', '/'] <:+ (path ++ "/").toList ↔ endsInSlash path.toList = true := by
  rw [String.toList_append, show "/".toList = ['/'] from rfl, endsInSlash, decide_eq_true_iff,
    List.getLast?_eq_some_iff]
  constructor
  · intro h
    obtain ⟨front, hfront⟩ := h
    rw [show ['/', '/'] = ['/'] ++ ['/'] from rfl, ← List.append_assoc] at hfront
    exact ⟨front, (List.append_cancel_right hfront).symm⟩
  · intro h
    obtain ⟨front, hfront⟩ := h
    exact ⟨front, by rw [hfront, List.append_assoc]; rfl⟩

end Text

namespace Snapshot

variable {written : String} {paths : List String}

/-- A written path stands for an entry with an empty path exactly if it is absolute. -/
theorem exists_empty_mem_entriesOfPath :
    (∃ entry ∈ entriesOfPath written, entry.path = "") ↔ (barePath written).head? = some '/' := by
  rw [List.head?_eq_some_iff]
  constructor
  · intro h
    obtain ⟨entry, hentry, hpath⟩ := h
    rcases mem_entriesOfPath.mp hentry with ⟨hne, heq, -⟩ | ⟨-, rest, hrest⟩
    · rw [hpath] at heq
      exact absurd heq.symm hne
    · rw [hpath] at hrest
      exact ⟨rest, hrest⟩
  · intro h
    obtain ⟨rest, hrest⟩ := h
    exact ⟨⟨"", .directory⟩, mem_entriesOfPath.mpr (.inr ⟨rfl, rest, hrest⟩), rfl⟩

/-- A written path stands for a directory whose path ends in a slash exactly if it has two slashes in a
row. No other entry has such a path. -/
theorem exists_endsInSlash_mem_entriesOfPath :
    (∃ entry ∈ entriesOfPath written, endsInSlash entry.path.toList = true) ↔
      ['/', '/'] <:+: barePath written := by
  rw [twoSlashes_isInfix_iff]
  constructor
  · intro h
    obtain ⟨entry, hentry, hends⟩ := h
    rcases mem_entriesOfPath.mp hentry with ⟨-, heq, -⟩ | ⟨-, rest, hrest⟩
    · rw [heq, barePath, endsInSlash_dropSlashes] at hends
      cases hends
    · exact ⟨entry.path.toList, rest, hends, hrest⟩
  · intro h
    obtain ⟨front, rest, hends, hrest⟩ := h
    refine ⟨⟨.ofList front, .directory⟩, mem_entriesOfPath.mpr (.inr ⟨rfl, rest, ?_⟩), ?_⟩
    · rwa [String.toList_ofList]
    · rwa [String.toList_ofList]

/-- The entry that ends in a slash is a directory. -/
theorem isDirectory_of_endsInSlash {entry : Entry} (hentry : entry ∈ (ofPaths paths).entries)
    (hends : endsInSlash entry.path.toList = true) : entry.isDirectory = true := by
  obtain ⟨path, kind⟩ := entry
  cases kind with
  | directory => rfl
  | file =>
    have hfile := endsInSlash_of_mem_files (mem_files.mpr hentry)
    rw [hfile] at hends
    cases hends

/-- The entries of a snapshot are those of some written path. -/
theorem exists_mem_ofPaths {P : Entry → Prop} : (∃ entry ∈ (ofPaths paths).entries, P entry) ↔
    ∃ written ∈ paths, ∃ entry ∈ entriesOfPath written, P entry := by
  simp only [mem_ofPaths]
  constructor
  · intro h
    obtain ⟨entry, ⟨written, hwritten, hentry⟩, hP⟩ := h
    exact ⟨written, hwritten, entry, hentry, hP⟩
  · intro h
    obtain ⟨written, hwritten, entry, hentry, hP⟩ := h
    exact ⟨entry, ⟨written, hwritten, hentry⟩, hP⟩

/-- All directories can be asked for. -/
theorem exists_pathsMatching_allDirectories (snapshot : Snapshot) :
    ∃ query, EntryQuery.ofPattern "**/" = .ok query ∧ query.directoriesOnly = true ∧
      ∃ answers, snapshot.pathsMatching "**/" = .ok answers ∧
        ∀ entry ∈ snapshot.entries, entry.isDirectory = true → entry.path ++ "/" ∈ answers := by
  have hquery : EntryQuery.ofPattern "**/" = .ok ⟨⟨"**", [.leadingStars]⟩, true⟩ := rfl
  refine ⟨_, hquery, rfl, _, pathsMatching_of_ofPattern hquery snapshot, ?_⟩
  intro entry hentry hdirectory
  have hmatch : Glob.isMatch ⟨"**", [.leadingStars]⟩ entry.path.toList = true := by
    rw [Glob.isMatch, Glob.toRegular, if_pos rfl, Regular.accepts_iff]
    exact Regular.matches_anything _
  refine List.mem_map.mpr ⟨entry, List.mem_filter.mpr ⟨hentry, ?_⟩, rfl⟩
  rw [EntryQuery.selects, hdirectory, hmatch]
  rfl

/-- Some question about directories is answered with two slashes at an end exactly if some directory has a
path that ends in a slash. -/
theorem exists_answer_with_twoSlashes {snapshot : Snapshot} :
    (∃ pattern query answers answer, EntryQuery.ofPattern pattern = .ok query ∧
      query.directoriesOnly = true ∧ snapshot.pathsMatching pattern = .ok answers ∧
      answer ∈ answers ∧ ['/', '/'] <:+ answer.toList) ↔
    ∃ entry ∈ snapshot.entries, entry.isDirectory = true ∧ endsInSlash entry.path.toList = true := by
  constructor
  · intro h
    obtain ⟨pattern, query, answers, answer, hquery, honly, hanswers, hanswer, hslashes⟩ := h
    rw [pathsMatching_of_ofPattern hquery] at hanswers
    cases hanswers
    obtain ⟨entry, hentry, rfl⟩ := List.mem_map.mp hanswer
    obtain ⟨hmem, hselects⟩ := List.mem_filter.mp hentry
    rw [EntryQuery.report, if_pos honly, twoSlashes_isSuffix_iff] at hslashes
    rw [EntryQuery.selects, honly] at hselects
    exact ⟨entry, hmem, (Bool.and_eq_true_iff.mp hselects).1, hslashes⟩
  · intro h
    obtain ⟨entry, hentry, hdirectory, hends⟩ := h
    obtain ⟨query, hquery, honly, answers, hanswers, hall⟩ := snapshot.exists_pathsMatching_allDirectories
    exact ⟨"**/", query, answers, _, hquery, honly, hanswers, hall entry hentry hdirectory,
      twoSlashes_isSuffix_iff.mpr hends⟩

/-- All paths of a snapshot end in names exactly if no written path is absolute or has two slashes in a
row. -/
theorem forall_mem_endsInName_iff : (∀ entry ∈ (ofPaths paths).entries, entry.EndsInName) ↔
    ∀ written ∈ paths, (barePath written).head? ≠ some '/' ∧ ¬ ['/', '/'] <:+: barePath written := by
  have hempty : (∃ entry ∈ (ofPaths paths).entries, entry.path = "") ↔
      ∃ written ∈ paths, (barePath written).head? = some '/' := by
    simp only [exists_mem_ofPaths, exists_empty_mem_entriesOfPath]
  have hslash : (∃ entry ∈ (ofPaths paths).entries, endsInSlash entry.path.toList = true) ↔
      ∃ written ∈ paths, ['/', '/'] <:+: barePath written := by
    simp only [exists_mem_ofPaths, exists_endsInSlash_mem_entriesOfPath]
  constructor
  · intro h written hwritten
    constructor
    · intro hhead
      obtain ⟨entry, hentry, hpath⟩ := hempty.mpr ⟨written, hwritten, hhead⟩
      exact (h entry hentry).1 hpath
    · intro htwo
      obtain ⟨entry, hentry, hends⟩ := hslash.mpr ⟨written, hwritten, htwo⟩
      rw [(h entry hentry).2] at hends
      cases hends
  · intro h entry hentry
    constructor
    · intro hpath
      obtain ⟨written, hwritten, hhead⟩ := hempty.mp ⟨entry, hentry, hpath⟩
      exact (h written hwritten).1 hhead
    · rw [Bool.eq_false_iff]
      intro hends
      obtain ⟨written, hwritten, htwo⟩ := hslash.mp ⟨entry, hentry, hends⟩
      exact (h written hwritten).2 htwo

/-- Some question about directories is answered with two slashes at an end exactly if some written path has
two slashes in a row. -/
theorem exists_answer_with_twoSlashes_iff :
    (∃ pattern query answers answer, EntryQuery.ofPattern pattern = .ok query ∧
      query.directoriesOnly = true ∧ (ofPaths paths).pathsMatching pattern = .ok answers ∧
      answer ∈ answers ∧ ['/', '/'] <:+ answer.toList) ↔
    ∃ written ∈ paths, ['/', '/'] <:+: barePath written := by
  simp only [exists_answer_with_twoSlashes, ← exists_endsInSlash_mem_entriesOfPath, ← exists_mem_ofPaths]
  constructor
  · intro h
    obtain ⟨entry, hentry, -, hends⟩ := h
    exact ⟨entry, hentry, hends⟩
  · intro h
    obtain ⟨entry, hentry, hends⟩ := h
    exact ⟨entry, hentry, isDirectory_of_endsInSlash hentry hends, hends⟩

/-- The paths of files always end in names. All paths do exactly if no written path is absolute or has two
slashes in a row, and questions about directories are answered with one slash at each end exactly if none
has two in a row. -/
theorem endsInName_ofPaths (paths : List String) :
    (∀ file ∈ (ofPaths paths).files, Entry.EndsInName ⟨file, .file⟩) ∧
    ((∀ entry ∈ (ofPaths paths).entries, entry.EndsInName) ↔
      ∀ written ∈ paths, (barePath written).head? ≠ some '/' ∧ ¬ ['/', '/'] <:+: barePath written) ∧
    ((∀ pattern query answers answer, EntryQuery.ofPattern pattern = .ok query →
      query.directoriesOnly = true → (ofPaths paths).pathsMatching pattern = .ok answers →
      answer ∈ answers → ¬ ['/', '/'] <:+ answer.toList) ↔
        ∀ written ∈ paths, ¬ ['/', '/'] <:+: barePath written) := by
  refine ⟨fun file hfile => ⟨?_, endsInSlash_of_mem_files hfile⟩, forall_mem_endsInName_iff, ?_⟩
  · obtain ⟨written, -, hmem⟩ := mem_ofPaths.mp (mem_files.mp hfile)
    rintro rfl
    rcases mem_entriesOfPath.mp hmem with ⟨hne, hpath, -⟩ | ⟨hkind, -⟩
    · exact hne hpath.symm
    · cases hkind
  · have hanswers := @exists_answer_with_twoSlashes_iff paths
    rw [← not_iff_not]
    push Not
    simpa only [exists_and_left, ne_eq] using hanswers

/-- Two slashes in a row make a directory whose path ends in a slash, and a question about directories shows
it with two. -/
theorem exists_not_endsInName :
    (∃ entry ∈ (ofPaths ["a//b"]).entries, entry = ⟨"a/", .directory⟩ ∧ ¬ entry.EndsInName) ∧
    ∃ answers, (ofPaths ["a//b"]).pathsMatching "**/" = .ok answers ∧ "a//" ∈ answers := by
  have hentry : ⟨"a/", .directory⟩ ∈ (ofPaths ["a//b"]).entries :=
    mem_ofPaths.mpr ⟨"a//b", List.mem_singleton_self _, by decide +kernel⟩
  obtain ⟨query, -, -, answers, hanswers, hall⟩ :=
    (ofPaths ["a//b"]).exists_pathsMatching_allDirectories
  refine ⟨⟨_, hentry, rfl, ?_⟩, answers, hanswers, hall _ hentry rfl⟩
  intro hname
  exact absurd hname.2 (by decide)

end Snapshot

end TreeLayout
