import TreeLayout.Proofs.FileTree.Names
import TreeLayout.Proofs.FileTree.Paths
import TreeLayout.Proofs.Inquiry
import TreeLayout.Proofs.Snapshot.Entries

/-!
# What a snapshot of a file tree holds

A tree holds an entry for every way of names from its top to a file, a link or a directory. Exactly
those entries are in its snapshot that are not left out and lie below no entry that is left out.
-/

namespace TreeLayout.FileTree

open Text

/-- The names on the way to an entry of a tree, and its kind; links are files. -/
inductive Holds : FileTree → List String → EntryKind → Prop
  | file {name contents rest} : Holds (.file name contents rest) [name] .file
  | link {name target rest} : Holds (.link name target rest) [name] .file
  | directory {name children rest} : Holds (.directory name children rest) [name] .directory
  | within {name children rest names kind} (h : Holds children names kind) :
      Holds (.directory name children rest) (name :: names) kind
  | besideFile {name contents rest names kind} (h : Holds rest names kind) :
      Holds (.file name contents rest) names kind
  | besideLink {name target rest names kind} (h : Holds rest names kind) :
      Holds (.link name target rest) names kind
  | besideDirectory {name children rest names kind} (h : Holds rest names kind) :
      Holds (.directory name children rest) names kind

variable {exclude : List Glob} {root : List Char} {above names : List String} {name : String}
  {kind : EntryKind}

theorem Holds.ne_nil {tree : FileTree} (h : tree.Holds names kind) : names ≠ [] := by
  induction h with
  | file => simp
  | link => simp
  | directory => simp
  | within => simp
  | besideFile _ ih => exact ih
  | besideLink _ ih => exact ih
  | besideDirectory _ ih => exact ih

/-- On the way to an entry there are only names. -/
theorem Holds.isName {tree : FileTree} (hnames : tree.HasNames) (h : tree.Holds names kind) :
    ∀ name ∈ names, IsName name := by
  induction h with
  | file => simpa using hnames.1
  | link => simpa using hnames.1
  | directory => simpa using hnames.1
  | within _ ih =>
    intro other hother
    rcases List.mem_cons.mp hother with rfl | hother
    · exact hnames.1
    · exact ih hnames.2.1 other hother
  | besideFile _ ih => exact ih hnames.2
  | besideLink _ ih => exact ih hnames.2
  | besideDirectory _ ih => exact ih hnames.2.2

/-- The entry of a kind at the end of names. -/
def entryOf (names : List String) (kind : EntryKind) : Entry := ⟨.ofList (pathOf names), kind⟩

/-- Whether neither an entry nor a directory that it lies in is left out: none of them is named
`.git`, and no exclude glob matches the path of one. -/
structure IsKept (exclude : List Glob) (names : List String) : Prop where
  gitName_notMem : gitName ∉ names
  isMatchInSet : ∀ front, front <+: names → front ≠ [] →
    ∀ glob ∈ exclude, glob.isMatchInSet (pathOf front) = false

theorem isKept_nil : IsKept exclude [] where
  gitName_notMem := List.not_mem_nil
  isMatchInSet _ hfront hne := absurd (List.prefix_nil.mp hfront) hne

/-- What lies below an entry is kept only if the entry is. -/
theorem IsKept.of_append (h : IsKept exclude (above ++ names)) : IsKept exclude above where
  gitName_notMem hgit := h.gitName_notMem (List.mem_append_left names hgit)
  isMatchInSet front hfront :=
    h.isMatchInSet front (hfront.trans (List.prefix_append above names))

/-- A place below a root is left out for its name or for its path relative to the root. -/
theorem isLeftOut_placeOf_eq_false (hne : names ≠ []) (hnames : ∀ name ∈ names, IsName name) :
    isLeftOut exclude root (placeOf root names) name = false ↔
      name ≠ gitName ∧ ∀ glob ∈ exclude, glob.isMatchInSet (pathOf names) = false := by
  rw [isLeftOut, relativeTo?_placeOf root hnames]
  simp [pathOf_ne_nil hne hnames]

theorem isName_concat (habove : ∀ other ∈ above, IsName other) (hname : IsName name) :
    ∀ other ∈ above ++ [name], IsName other := by
  intro other hother
  rcases List.mem_append.mp hother with hother | hother
  · exact habove other hother
  · exact List.mem_singleton.mp hother ▸ hname

/-- An entry of a directory that is kept is kept unless it is left out itself. -/
theorem isKept_append_singleton (root : List Char) (hnames : ∀ other ∈ above ++ [name], IsName other) :
    IsKept exclude (above ++ [name]) ↔
      IsKept exclude above ∧ isLeftOut exclude root (placeOf root (above ++ [name])) name = false := by
  rw [isLeftOut_placeOf_eq_false (List.append_ne_nil_of_right_ne_nil _ (List.cons_ne_nil _ _)) hnames]
  constructor
  · intro h
    refine ⟨h.of_append, ?_, ?_⟩
    · intro hname
      apply h.gitName_notMem
      simp [hname]
    · exact h.isMatchInSet _ List.prefix_rfl (by simp)
  · intro h
    obtain ⟨habove, hname, hglobs⟩ := h
    refine ⟨?_, ?_⟩
    · intro hgit
      rcases List.mem_append.mp hgit with hgit | hgit
      · exact habove.gitName_notMem hgit
      · exact hname (List.mem_singleton.mp hgit).symm
    · intro front hfront hne
      rcases List.prefix_concat_iff.mp hfront with rfl | hfront
      · exact hglobs
      · exact habove.isMatchInSet front hfront hne

/-- What is recorded at a place below a root is the entry of the names. -/
theorem recordOf_placeOf (hnames : ∀ name ∈ names, IsName name) :
    recordOf root (placeOf root names) kind = [entryOf names kind] := by
  rw [recordOf, relativeTo?_placeOf root hnames, entryOf]

theorem mem_recordOfFile {entry : Entry} (hnames : ∀ other ∈ above ++ [name], IsName other)
    (hkept : IsKept exclude above) : entry ∈ recordOfFile exclude root (placeOf root above) name ↔
      IsKept exclude (above ++ [name]) ∧ entry = entryOf (above ++ [name]) .file := by
  rw [isKept_append_singleton root hnames, recordOfFile, ← placeOf_append_singleton]
  split
  · rename_i hleft
    simp [hleft]
  · rename_i hleft
    simp [hleft, hkept, recordOf_placeOf hnames]

/-- Whether an entry is one of a tree below other names, and kept. -/
def Keeps (exclude : List Glob) (above : List String) (tree : FileTree) (entry : Entry) : Prop :=
  ∃ names kind, tree.Holds names kind ∧ IsKept exclude (above ++ names) ∧
    entry = entryOf (above ++ names) kind

section Keeps

variable {entry : Entry} {children rest : FileTree}

theorem keeps_file {contents : ByteArray} : Keeps exclude above (.file name contents rest) entry ↔
    (IsKept exclude (above ++ [name]) ∧ entry = entryOf (above ++ [name]) .file) ∨
      Keeps exclude above rest entry := by
  constructor
  · intro h
    obtain ⟨names, kind, hholds, hentry⟩ := h
    cases hholds with
    | file => exact .inl hentry
    | besideFile hrest => exact .inr ⟨names, kind, hrest, hentry⟩
  · intro h
    rcases h with hentry | ⟨names, kind, hrest, hentry⟩
    · exact ⟨[name], .file, .file, hentry⟩
    · exact ⟨names, kind, .besideFile hrest, hentry⟩

theorem keeps_link {target : String} : Keeps exclude above (.link name target rest) entry ↔
    (IsKept exclude (above ++ [name]) ∧ entry = entryOf (above ++ [name]) .file) ∨
      Keeps exclude above rest entry := by
  constructor
  · intro h
    obtain ⟨names, kind, hholds, hentry⟩ := h
    cases hholds with
    | link => exact .inl hentry
    | besideLink hrest => exact .inr ⟨names, kind, hrest, hentry⟩
  · intro h
    rcases h with hentry | ⟨names, kind, hrest, hentry⟩
    · exact ⟨[name], .file, .link, hentry⟩
    · exact ⟨names, kind, .besideLink hrest, hentry⟩

theorem keeps_directory : Keeps exclude above (.directory name children rest) entry ↔
    ((IsKept exclude (above ++ [name]) ∧ entry = entryOf (above ++ [name]) .directory) ∨
      Keeps exclude (above ++ [name]) children entry) ∨ Keeps exclude above rest entry := by
  constructor
  · intro h
    obtain ⟨names, kind, hholds, hentry⟩ := h
    cases hholds with
    | directory => exact .inl (.inl hentry)
    | within hchildren =>
      rw [List.append_cons] at hentry
      exact .inl (.inr ⟨_, kind, hchildren, hentry⟩)
    | besideDirectory hrest => exact .inr ⟨names, kind, hrest, hentry⟩
  · intro h
    rcases h with (hentry | ⟨names, kind, hchildren, hentry⟩) | ⟨names, kind, hrest, hentry⟩
    · exact ⟨[name], .directory, .directory, hentry⟩
    · rw [List.append_assoc, List.singleton_append] at hentry
      exact ⟨name :: names, kind, .within hchildren, hentry⟩
    · exact ⟨names, kind, .besideDirectory hrest, hentry⟩

/-- Nothing below an entry is kept that is left out. -/
theorem isKept_of_keeps {tree : FileTree} (h : Keeps exclude above tree entry) :
    IsKept exclude above := by
  obtain ⟨names, kind, -, hkept, -⟩ := h
  exact hkept.of_append

end Keeps

/-- A walk yields the entries that are kept. The induction is on the tree, with the names on the way
to it; these are kept wherever the walk comes to. -/
theorem mem_walk {tree : FileTree} {entry : Entry} (hnames : tree.HasNames)
    (habove : ∀ other ∈ above, IsName other) (hkept : IsKept exclude above) :
    entry ∈ walk exclude root (placeOf root above) tree ↔ Keeps exclude above tree entry := by
  induction tree generalizing above with
  | empty =>
    constructor
    · intro h
      simp [walk] at h
    · intro h
      obtain ⟨names, kind, hholds, -⟩ := h
      cases hholds
  | file name contents rest ih =>
    rw [walk, List.mem_append, mem_recordOfFile (isName_concat habove hnames.1) hkept,
      ih hnames.2 habove hkept, keeps_file]
  | link name target rest ih =>
    rw [walk, List.mem_append, mem_recordOfFile (isName_concat habove hnames.1) hkept,
      ih hnames.2 habove hkept, keeps_link]
  | directory name children rest ihchildren ih =>
    have hbelow := isName_concat habove hnames.1
    rw [walk, List.mem_append, ih hnames.2.2 habove hkept, keeps_directory,
      ← placeOf_append_singleton]
    apply or_congr_left
    split
    · rename_i hleft
      have hnot : ¬ IsKept exclude (above ++ [name]) := by
        intro h
        rw [((isKept_append_singleton root hbelow).mp h).2] at hleft
        cases hleft
      constructor
      · intro h
        cases h
      · intro h
        rcases h with ⟨h, -⟩ | h
        · exact absurd h hnot
        · exact absurd (isKept_of_keeps h) hnot
    · rename_i hleft
      have hdirectory : IsKept exclude (above ++ [name]) :=
        (isKept_append_singleton root hbelow).mpr ⟨hkept, by simpa using hleft⟩
      rw [recordOf_placeOf hbelow, List.singleton_append, List.mem_cons,
        ihchildren hnames.2.1 hbelow hdirectory]
      simp [hdirectory]

/-- A snapshot is taken of a directory, with exclude patterns that are globs. -/
theorem exists_of_capture {system : FileSystem} {root : String} {patterns : List String}
    {snapshot : Snapshot} (h : system.capture root patterns = .ok snapshot) :
    ∃ top globs, system.directory? root = some top ∧ patterns.mapM Glob.compile = .ok globs ∧
      snapshot = .ofEntries (top.walk globs root.toList root.toList) := by
  rw [FileSystem.capture] at h
  cases htop : system.directory? root with
  | none =>
    rw [htop] at h
    cases h
  | some top =>
    rw [htop] at h
    obtain ⟨globs, hglobs, hsnapshot⟩ := bind_eq_ok_iff.mp h
    cases hsnapshot
    exact ⟨top, globs, rfl, mapError_eq_ok_iff.mp hglobs, rfl⟩

/-- The snapshot of a directory holds the entries that are kept, and no others. -/
theorem mem_ofEntries_walk {top : FileTree} {entry : Entry} (hnames : top.HasNames) :
    entry ∈ (Snapshot.ofEntries (top.walk exclude root root)).entries ↔
      ∃ names kind, top.Holds names kind ∧ IsKept exclude names ∧ entry = entryOf names kind := by
  have hwalk : entry ∈ walk exclude root (placeOf root []) top ↔ Keeps exclude [] top entry :=
    mem_walk hnames (by simp) isKept_nil
  rw [Snapshot.mem_ofEntries]
  exact hwalk

/-- The files of a walk are those that are kept. -/
theorem mem_files_walk {top : FileTree} {file : String} (hnames : top.HasNames) :
    file ∈ (Snapshot.ofEntries (top.walk exclude root root)).files ↔
      ∃ names, top.Holds names .file ∧ IsKept exclude names ∧ file = (entryOf names .file).path := by
  rw [Snapshot.mem_files, mem_ofEntries_walk hnames]
  constructor
  · intro h
    obtain ⟨names, kind, hholds, hkept, hentry⟩ := h
    cases hentry
    exact ⟨names, hholds, hkept, rfl⟩
  · intro h
    obtain ⟨names, hholds, hkept, hfile⟩ := h
    exact ⟨names, .file, hholds, hkept, by rw [hfile, entryOf]⟩

/-- No file of a walk has an empty segment. -/
theorem nil_notMem_segments_of_mem_files {top : FileTree} {file : String} (hnames : top.HasNames)
    (hfile : file ∈ (Snapshot.ofEntries (top.walk exclude root root)).files) :
    [] ∉ Text.segments file.toList := by
  obtain ⟨names, hholds, -, rfl⟩ := (mem_files_walk hnames).mp hfile
  rw [entryOf, String.toList_ofList]
  exact nil_notMem_segments_pathOf hholds.ne_nil (hholds.isName hnames)

end TreeLayout.FileTree
