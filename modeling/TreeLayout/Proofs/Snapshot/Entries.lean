import Mathlib.Data.List.Nodup
import TreeLayout.Proofs.Text.Segments
import TreeLayout.Snapshot.Basic

/-!
# The entries of written paths

A snapshot of written paths holds each path without its marks and the directories above it. No file
ends in a slash, and well-formed paths have well-formed entries only.
-/

namespace TreeLayout.Snapshot

open Text

/-- A snapshot has exactly the given entries. -/
@[simp] theorem mem_ofEntries {entries : List Entry} {entry : Entry} :
    entry ∈ (ofEntries entries).entries ↔ entry ∈ entries := by
  rw [ofEntries, List.mem_mergeSort, List.mem_eraseDups]

/-- Entries in order stay as they are, apart from repetitions. -/
theorem ofEntries_of_pairwise {entries : List Entry}
    (h : entries.eraseDups.Pairwise fun a b => Entry.le a b = true) :
    ofEntries entries = ⟨entries.eraseDups⟩ := by
  rw [ofEntries, List.mergeSort_of_pairwise h]

/-- Where the entries of written paths are in order, apart from repetitions, they are the snapshot. -/
theorem ofPaths_of_pairwise {paths : List String} {entries : List Entry}
    (hentries : (paths.flatMap entriesOfPath).eraseDups = entries)
    (hpairwise : entries.Pairwise fun a b => Entry.le a b = true) : ofPaths paths = ⟨entries⟩ := by
  subst hentries
  exact ofEntries_of_pairwise hpairwise

theorem ofPaths_nil : ofPaths [] = ⟨[]⟩ := ofPaths_of_pairwise rfl .nil

theorem mem_files {snapshot : Snapshot} {file : String} :
    file ∈ snapshot.files ↔ ⟨file, .file⟩ ∈ snapshot.entries := by
  rw [files, List.mem_map]
  constructor
  · intro h
    obtain ⟨entry, hentry, hpath⟩ := h
    obtain ⟨hmem, hkind⟩ := List.mem_filter.mp hentry
    obtain ⟨path, kind⟩ := entry
    cases kind with
    | file => exact hpath ▸ hmem
    | directory => simp [Entry.isDirectory] at hkind
  · intro hfile
    exact ⟨⟨file, .file⟩, List.mem_filter.mpr ⟨hfile, rfl⟩, rfl⟩

/-- Erasing repetitions leaves none. -/
theorem nodup_eraseDups {α : Type} [BEq α] [LawfulBEq α] (items : List α) :
    items.eraseDups.Nodup := by
  induction hlength : items.length using Nat.strongRecOn generalizing items with
  | ind n ih =>
    cases items with
    | nil => exact List.nodup_nil
    | cons item items =>
      rw [List.eraseDups_cons, List.nodup_cons]
      refine ⟨by simp, ih _ ?_ _ rfl⟩
      have hle := List.length_filter_le (fun other => !other == item) items
      simp only [List.length_cons] at hlength
      omega

/-- No entry stands twice in a snapshot. -/
theorem nodup_ofEntries (entries : List Entry) : (ofEntries entries).entries.Nodup :=
  (List.mergeSort_perm _ _).nodup_iff.mpr (nodup_eraseDups entries)

/-- No file stands twice in a snapshot. -/
theorem nodup_files (entries : List Entry) : (ofEntries entries).files.Nodup := by
  rw [files]
  refine List.Nodup.map_on (fun a ha b hb hpath => ?_) ((nodup_ofEntries entries).filter _)
  have hkind {entry : Entry} (hentry : entry ∈ (ofEntries entries).entries.filter fun entry =>
      !entry.isDirectory) : entry.kind = .file := by
    cases hfile : entry.kind with
    | file => rfl
    | directory => simp [Entry.isDirectory, hfile] at hentry
  obtain ⟨path, kind⟩ := a
  obtain ⟨other, otherKind⟩ := b
  rw [show path = other from hpath, show kind = .file from hkind ha,
    show otherKind = .file from hkind hb]

/-- The directories above a path end before its slashes. -/
theorem mem_parents {path parent : List Char} :
    parent ∈ parents path ↔ ∃ rest, path = parent ++ '/' :: rest := by
  induction path generalizing parent with
  | nil => simp [parents]
  | cons c path ih =>
    simp only [parents, List.mem_append, List.mem_map]
    constructor
    · intro hcases
      rcases hcases with hnil | ⟨front, hfront, rfl⟩
      · by_cases hc : c = '/'
        · subst hc
          rw [if_pos rfl, List.mem_singleton] at hnil
          exact ⟨path, by rw [hnil, List.nil_append]⟩
        · simp [hc] at hnil
      · obtain ⟨rest, rfl⟩ := ih.mp hfront
        exact ⟨rest, rfl⟩
    · intro hexists
      obtain ⟨rest, hrest⟩ := hexists
      cases parent with
      | nil =>
        obtain ⟨rfl, -⟩ := List.cons.inj hrest
        exact .inl (by simp)
      | cons d front =>
        obtain ⟨rfl, hpath⟩ := List.cons.inj hrest
        exact .inr ⟨front, ih.mpr ⟨rest, hpath⟩, rfl⟩

/-- The path that a written path stands for: no leading `./` and no slash at its end belongs to it. -/
def barePath (written : String) : List Char := dropSlashes (dropDotSlashes written.toList)

/-- The kind of entry that a written path stands for. -/
def kindOf (written : String) : EntryKind :=
  if endsInSlash (dropDotSlashes written.toList) then .directory else .file

section Written

variable {written : String} {entry : Entry} {paths : List String}

theorem entriesOfPath_eq (written : String) : entriesOfPath written =
    if barePath written = [] then [] else ⟨.ofList (barePath written), kindOf written⟩ ::
      (parents (barePath written)).map fun parent => ⟨.ofList parent, .directory⟩ := rfl

/-- A written path stands for itself, unless nothing is left of it, and for the directories above it. -/
theorem mem_entriesOfPath : entry ∈ entriesOfPath written ↔
    (barePath written ≠ [] ∧ entry.path.toList = barePath written ∧ entry.kind = kindOf written) ∨
      entry.kind = .directory ∧ ∃ rest, barePath written = entry.path.toList ++ '/' :: rest := by
  obtain ⟨path, kind⟩ := entry
  rw [entriesOfPath_eq]
  split
  · rename_i hnil
    simp [hnil]
  · rename_i hne
    simp only [List.mem_cons, Entry.mk.injEq, List.mem_map, mem_parents]
    refine or_congr ?_ ?_
    · rw [← String.toList_inj, String.toList_ofList]
      exact ⟨fun h => ⟨hne, h.1, h.2⟩, fun h => ⟨h.2.1, h.2.2⟩⟩
    · constructor
      · intro h
        obtain ⟨parent, hparent, rfl, rfl⟩ := h
        exact ⟨rfl, by rwa [String.toList_ofList]⟩
      · intro h
        obtain ⟨rfl, hparent⟩ := h
        exact ⟨path.toList, hparent, String.ofList_toList, rfl⟩

theorem mem_ofPaths : entry ∈ (ofPaths paths).entries ↔
    ∃ written ∈ paths, entry ∈ entriesOfPath written := by
  rw [ofPaths, mem_ofEntries, List.mem_flatMap]

end Written

/-- A well-formed path stands for an entry of the kind that it is written as, and for the directories
above it. -/
theorem entriesOfPath_of_isWellFormed {written : String}
    (h : IsWellFormed (dropLastOf '/' written.toList)) : entriesOfPath written =
      ⟨.ofList (dropLastOf '/' written.toList),
        if endsInSlash written.toList then .directory else .file⟩ ::
      (parents (dropLastOf '/' written.toList)).map fun parent => ⟨.ofList parent, .directory⟩ := by
  have hne : dropLastOf '/' written.toList ≠ [] := by
    intro hnil
    rw [hnil] at h
    exact (h [] (by decide)).1 rfl
  rw [entriesOfPath]
  dsimp only
  rw [dropSlashes_dropDotSlashes_of_isWellFormed h, dropDotSlashes_of_isWellFormed h, if_neg hne]

/-- No file of written paths ends in a slash. -/
theorem endsInSlash_of_mem_files {paths : List String} {file : String}
    (hfile : file ∈ (ofPaths paths).files) : endsInSlash file.toList = false := by
  rw [mem_files, mem_ofPaths] at hfile
  obtain ⟨written, -, hmem⟩ := hfile
  rcases mem_entriesOfPath.mp hmem with ⟨-, hpath, -⟩ | ⟨hdirectory, -⟩
  · rw [hpath]
    exact endsInSlash_dropSlashes _
  · cases hdirectory

/-- Well-formed paths, of which a slash at the end may mark directories, have well-formed entries. -/
theorem isWellFormed_of_mem_ofPaths {paths : List String}
    (h : ∀ path ∈ paths, IsWellFormed (dropLastOf '/' path.toList)) {entry : Entry}
    (hentry : entry ∈ (ofPaths paths).entries) : IsWellFormed entry.path.toList := by
  obtain ⟨written, hwritten, hmem⟩ := mem_ofPaths.mp hentry
  have hpath : IsWellFormed (barePath written) := by
    rw [barePath, dropSlashes_dropDotSlashes_of_isWellFormed (h written hwritten)]
    exact h written hwritten
  rcases mem_entriesOfPath.mp hmem with ⟨-, heq, -⟩ | ⟨-, rest, hrest⟩
  · rwa [heq]
  · rw [hrest] at hpath
    intro segment hsegment
    apply hpath
    rw [segments, split_append_cons]
    exact List.mem_append_left _ hsegment

end TreeLayout.Snapshot
