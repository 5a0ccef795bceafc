import TreeLayout.Proofs.Snapshot.Order

/-!
# Snapshots of written paths are canonical

The files of a snapshot are its written paths that do not end in a slash. Its directories are those that
do, and whatever ends before a slash of a path. Written down again, each entry stands for itself and for
entries that are there already, so a snapshot is built to itself (`ofPaths_of_same_paths`).

Nothing is assumed about the paths: repeated slashes make directories whose paths end in slashes or are
empty, and these are covered.
-/

namespace TreeLayout

open Text

/-- An entry as it is written: a directory has a slash at its end. -/
def Entry.written (entry : Entry) : String :=
  if entry.isDirectory then entry.path ++ "/" else entry.path

namespace Snapshot

section Entries

variable {written : String} {entry : Entry}

theorem ne_nil_of_barePath (h : barePath written ≠ []) : dropDotSlashes written.toList ≠ [] := by
  intro hnil
  rw [barePath, hnil] at h
  exact h rfl

/-- Whether a written path is that of a directory is told by its end, if anything is left of it. -/
theorem kindOf_eq (h : barePath written ≠ []) :
    kindOf written = if endsInSlash written.toList then .directory else .file := by
  rw [kindOf, endsInSlash_dropDotSlashes (ne_nil_of_barePath h)]

theorem kindOf_eq_directory_iff (h : barePath written ≠ []) :
    kindOf written = .directory ↔ endsInSlash written.toList = true := by
  rw [kindOf_eq h]
  split <;> simp_all

theorem kindOf_eq_file_iff (h : barePath written ≠ []) :
    kindOf written = .file ↔ endsInSlash written.toList = false := by
  rw [kindOf_eq h]
  split <;> simp_all

/-- A written path without a slash at its end stands for a file, unless nothing is left of it. -/
theorem file_mem_entriesOfPath {file : String} : ⟨file, .file⟩ ∈ entriesOfPath written ↔
    file ≠ "" ∧ endsInSlash written.toList = false ∧
      file.toList = dropDotSlashes written.toList := by
  rw [mem_entriesOfPath]
  constructor
  · intro h
    obtain ⟨hne, hpath, hkind⟩ | ⟨hkind, -⟩ := h
    · have hends := (kindOf_eq_file_iff hne).mp hkind.symm
      have hrest : endsInSlash (dropDotSlashes written.toList) = false := by
        rw [endsInSlash_dropDotSlashes (ne_nil_of_barePath hne), hends]
      refine ⟨?_, hends, hpath.trans (dropSlashes_eq_self hrest)⟩
      rintro rfl
      exact hne hpath.symm
    · cases hkind
  · intro h
    obtain ⟨hfile, hends, hpath⟩ := h
    have hne : dropDotSlashes written.toList ≠ [] := by
      rw [← hpath]
      simpa using hfile
    have hbare : barePath written = dropDotSlashes written.toList :=
      dropSlashes_eq_self (by rw [endsInSlash_dropDotSlashes hne, hends])
    rw [← hbare] at hne hpath
    exact .inl ⟨hne, hpath, ((kindOf_eq_file_iff hne).mpr hends).symm⟩

/-- A written path with a slash at its end stands for a directory, unless nothing is left of it, and every
path for the directories above it. -/
theorem directory_mem_entriesOfPath {directory : String} :
    ⟨directory, .directory⟩ ∈ entriesOfPath written ↔
      (directory ≠ "" ∧ endsInSlash written.toList = true ∧ directory.toList = barePath written) ∨
        ∃ rest, barePath written = directory.toList ++ '/' :: rest := by
  rw [mem_entriesOfPath]
  refine or_congr ?_ (and_iff_right rfl)
  constructor
  · intro h
    obtain ⟨hne, hpath, hkind⟩ := h
    have hends := (kindOf_eq_directory_iff hne).mp hkind.symm
    refine ⟨?_, hends, hpath⟩
    rintro rfl
    exact hne hpath.symm
  · intro h
    obtain ⟨hdirectory, hends, hpath⟩ := h
    have hne : barePath written ≠ [] := by
      rw [← hpath]
      simpa using hdirectory
    exact ⟨hne, hpath, ((kindOf_eq_directory_iff hne).mpr hends).symm⟩

/-- What is written of an entry is a part of what the entry was written as. -/
theorem written_isPrefix (h : entry ∈ entriesOfPath written) :
    entry.written.toList <+: dropDotSlashes written.toList := by
  have hbare : barePath written <+: dropDotSlashes written.toList := dropSlashes_isPrefix _
  have hdirectory (hkind : entry.kind = .directory) :
      entry.written.toList = entry.path.toList ++ ['/'] := by
    rw [Entry.written, Entry.isDirectory, hkind, decide_eq_true rfl, if_pos rfl,
      String.toList_append]
    rfl
  rcases mem_entriesOfPath.mp h with ⟨-, hpath, hkind⟩ | ⟨hkind, rest, hrest⟩
  · cases hends : endsInSlash (dropDotSlashes written.toList) with
    | false =>
      have hfile : entry.kind = .file := by simpa [kindOf, hends] using hkind
      rw [Entry.written, Entry.isDirectory, hfile, if_neg (by decide), hpath]
      exact hbare
    | true =>
      have hends' : (dropDotSlashes written.toList).getLast? = some '/' := by
        simpa [endsInSlash] using hends
      obtain ⟨front, hfront⟩ := List.getLast?_eq_some_iff.mp hends'
      obtain ⟨rest, hrest⟩ := exists_dropSlashes_append_slash front []
      rw [hdirectory (by simpa [kindOf, hends] using hkind), hpath, barePath, hfront,
        dropSlashes_append_slash, hrest]
      exact ⟨rest, by simp⟩
  · rw [hdirectory hkind]
    exact List.IsPrefix.trans ⟨rest, by simpa using hrest.symm⟩ hbare

/-- Written down, an entry stands for its path without the slashes at its end. -/
theorem barePath_written (h : entry ∈ entriesOfPath written) :
    barePath entry.written = dropSlashes entry.path.toList := by
  have hstart : ¬ ['.', '/'] <+: entry.written.toList := by
    intro hdot
    exact not_dotSlash_dropDotSlashes _ (hdot.trans (written_isPrefix h))
  rw [barePath, dropDotSlashes_eq_self hstart, Entry.written]
  split
  · rw [String.toList_append]
    exact dropSlashes_append_slash entry.path.toList
  · rfl

/-- Written down, an entry keeps its kind, if anything is left of it. -/
theorem kindOf_written (h : entry ∈ entriesOfPath written) (hne : barePath entry.written ≠ []) :
    kindOf entry.written = entry.kind := by
  rw [kindOf_eq hne, Entry.written, Entry.isDirectory]
  cases hkind : entry.kind with
  | directory => exact if_pos (endsInSlash_append_slash entry.path)
  | file =>
    have hpath : entry.path.toList = barePath written := by
      rcases mem_entriesOfPath.mp h with ⟨-, hpath, -⟩ | ⟨hkind', -⟩
      · exact hpath
      · cases hkind.symm.trans hkind'
    have hslash : endsInSlash entry.path.toList = false := by
      rw [hpath]
      exact endsInSlash_dropSlashes _
    simp [hslash]

/-- Written down, the entry that a path stands for stands for the same entries as the path. -/
theorem entriesOfPath_written (hpath : entry.path.toList = barePath written)
    (hkind : entry.kind = kindOf written) (hne : barePath written ≠ []) :
    entriesOfPath entry.written = entriesOfPath written := by
  have hmem : entry ∈ entriesOfPath written := mem_entriesOfPath.mpr (.inl ⟨hne, hpath, hkind⟩)
  have hbare : barePath entry.written = barePath written := by
    rw [barePath_written hmem, hpath]
    exact dropSlashes_eq_self (endsInSlash_dropSlashes _)
  have hsame : kindOf entry.written = kindOf written := by
    rw [kindOf_written hmem (by rwa [hbare]), hkind]
  rw [entriesOfPath_eq, hbare, hsame, ← entriesOfPath_eq]

/-- Written down, an entry stands for nothing that was not there before. -/
theorem mem_entriesOfPath_of_written (h : entry ∈ entriesOfPath written) {other : Entry}
    (hother : other ∈ entriesOfPath entry.written) : other ∈ entriesOfPath written := by
  rcases mem_entriesOfPath.mp h with ⟨hne, hpath, hkind⟩ | ⟨hkind, rest, hrest⟩
  · rwa [entriesOfPath_written hpath hkind hne] at hother
  · -- The directory stands above the path, so everything above the directory does as well.
    obtain ⟨rest', hrest'⟩ := exists_dropSlashes_append_slash entry.path.toList rest
    rw [hrest', ← barePath_written h] at hrest
    refine mem_entriesOfPath.mpr (.inr ?_)
    rcases mem_entriesOfPath.mp hother with ⟨hne, hpath, hkind'⟩ | ⟨hkind', above, habove⟩
    · exact ⟨by rw [hkind', kindOf_written h hne, hkind], rest', by rw [hrest, hpath]⟩
    · exact ⟨hkind', above ++ '/' :: rest', by rw [hrest, habove, List.append_assoc]; rfl⟩

end Entries

variable {paths others : List String}

/-- Neither the order of the paths nor their repetitions matter. -/
theorem ofPaths_congr (h : ∀ path, path ∈ others ↔ path ∈ paths) :
    ofPaths others = ofPaths paths := by
  apply ofEntries_congr
  intro entry
  simp only [List.mem_flatMap, h]

/-- A snapshot that is written down is built to itself. -/
theorem ofPaths_map_written (paths : List String) :
    ofPaths ((ofPaths paths).entries.map Entry.written) = ofPaths paths := by
  apply ofEntries_congr
  intro other
  simp only [List.mem_flatMap, List.mem_map, mem_ofPaths]
  constructor
  · intro h
    obtain ⟨_, ⟨entry, ⟨written, hwritten, hentry⟩, rfl⟩, hother⟩ := h
    exact ⟨written, hwritten, mem_entriesOfPath_of_written hentry hother⟩
  · intro h
    obtain ⟨written, hwritten, hother⟩ := h
    have hne : barePath written ≠ [] := by
      intro hnil
      rw [entriesOfPath_eq, if_pos hnil] at hother
      cases hother
    refine ⟨_, ⟨⟨.ofList (barePath written), kindOf written⟩, ⟨written, hwritten, ?_⟩, rfl⟩, ?_⟩
    · exact mem_entriesOfPath.mpr (.inl ⟨hne, String.toList_ofList, rfl⟩)
    · rwa [entriesOfPath_written String.toList_ofList rfl hne]

/-- A snapshot that holds some written paths and nothing else: those without a slash at their end are its
files; those with one, and whatever ends before a slash of a path, are its directories. -/
structure Lists (snapshot : Snapshot) (paths : List String) : Prop where
  files (file : String) : file ∈ snapshot.files ↔ file ≠ "" ∧
    ∃ written ∈ paths, endsInSlash written.toList = false ∧
      file.toList = dropDotSlashes written.toList
  directories (directory : String) : ⟨directory, .directory⟩ ∈ snapshot.entries ↔
    (directory ≠ "" ∧ ∃ written ∈ paths, endsInSlash written.toList = true ∧
      directory.toList = dropSlashes (dropDotSlashes written.toList)) ∨
    ∃ written ∈ paths, ∃ rest,
      dropSlashes (dropDotSlashes written.toList) = directory.toList ++ '/' :: rest
  nodup : snapshot.entries.Nodup

/-- A snapshot of written paths lists them. -/
theorem lists_ofPaths (paths : List String) : (ofPaths paths).Lists paths where
  files file := by
    rw [mem_files, mem_ofPaths]
    simp only [file_mem_entriesOfPath]
    constructor
    · intro h
      obtain ⟨written, hwritten, hne, hends, hpath⟩ := h
      exact ⟨hne, written, hwritten, hends, hpath⟩
    · intro h
      obtain ⟨hne, written, hwritten, hends, hpath⟩ := h
      exact ⟨written, hwritten, hne, hends, hpath⟩
  directories directory := by
    rw [mem_ofPaths]
    simp only [directory_mem_entriesOfPath]
    constructor
    · intro h
      obtain ⟨written, hwritten, ⟨hne, hends, hpath⟩ | habove⟩ := h
      · exact .inl ⟨hne, written, hwritten, hends, hpath⟩
      · exact .inr ⟨written, hwritten, habove⟩
    · intro h
      obtain ⟨hne, written, hwritten, hends, hpath⟩ | ⟨written, hwritten, habove⟩ := h
      · exact ⟨written, hwritten, .inl ⟨hne, hends, hpath⟩⟩
      · exact ⟨written, hwritten, .inr habove⟩
  nodup := nodup_ofEntries _

/-- A snapshot of written paths is a canonical form of them: it lists them, whatever their order and their
repetitions, and its entries, written down again, have the same snapshot. -/
theorem ofPaths_of_same_paths (h : ∀ path, path ∈ others ↔ path ∈ paths) :
    (ofPaths paths).Lists paths ∧ ofPaths others = ofPaths paths ∧
      ofPaths ((ofPaths paths).entries.map Entry.written) = ofPaths paths :=
  ⟨lists_ofPaths paths, ofPaths_congr h, ofPaths_map_written paths⟩

/-- Paths with repeated slashes, an absolute path, and a name for a file and a directory: the directories
above them have paths that end in slashes or are empty. -/
theorem ofPaths_of_same_paths_slashes :
    (∀ path, path ∈ ["docs", "/x", "./a//b", "docs/", "././", "/x"] ↔
      path ∈ ["./a//b", "/x", "././", "docs/", "docs"]) ∧
    ofPaths ["docs", "/x", "./a//b", "docs/", "././", "/x"] =
      ofPaths ["./a//b", "/x", "././", "docs/", "docs"] ∧
    (∀ directory ∈ ["", "a", "a/", "docs"],
      ⟨directory, .directory⟩ ∈ (ofPaths ["./a//b", "/x", "././", "docs/", "docs"]).entries) ∧
    (∀ file ∈ ["/x", "a//b", "docs"], file ∈ (ofPaths ["./a//b", "/x", "././", "docs/", "docs"]).files) := by
  have hsame : ∀ path, path ∈ ["docs", "/x", "./a//b", "docs/", "././", "/x"] ↔
      path ∈ ["./a//b", "/x", "././", "docs/", "docs"] := by
    intro path
    simp only [List.mem_cons, List.not_mem_nil, or_false]
    tauto
  obtain ⟨hlists, hcongr, -⟩ := ofPaths_of_same_paths hsame
  refine ⟨hsame, hcongr, fun directory hdirectory => ?_, fun file hfile => ?_⟩
  · rw [hlists.directories]
    simp only [List.mem_cons, List.not_mem_nil, or_false] at hdirectory
    rcases hdirectory with rfl | rfl | rfl | rfl
    · exact .inr ⟨"/x", by decide, ['x'], by decide⟩
    · exact .inr ⟨"./a//b", by decide, ['/', 'b'], by decide⟩
    · exact .inr ⟨"./a//b", by decide, ['b'], by decide⟩
    · exact .inl ⟨by decide, "docs/", by decide, by decide, by decide⟩
  · rw [hlists.files]
    simp only [List.mem_cons, List.not_mem_nil, or_false] at hfile
    rcases hfile with rfl | rfl | rfl
    · exact ⟨by decide, "/x", by decide, by decide, by decide⟩
    · exact ⟨by decide, "./a//b", by decide, by decide, by decide⟩
    · exact ⟨by decide, "docs", by decide, by decide, by decide⟩

end Snapshot

end TreeLayout
