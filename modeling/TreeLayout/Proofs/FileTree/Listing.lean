import Mathlib.Data.List.Infix
import TreeLayout.Proofs.FileTree.Walk
import TreeLayout.Proofs.Report.Naming
import TreeLayout.Proofs.Snapshot.Order

/-!
# Snapshots of listed trees

A tree whose directories have each name once can be listed: every path in it once, a directory with a
slash at its end. The walk through the tree and the snapshot of the listed paths are one and the same,
as far as no part of a path is left out (`FileTree.capture_eq_ofPaths`).
-/

namespace TreeLayout

namespace FileTree

open Text

/-- The names in a directory. -/
def nodeNames : FileTree → List String
  | empty => []
  | file name _ rest => name :: rest.nodeNames
  | link name _ rest => name :: rest.nodeNames
  | directory name _ rest => name :: rest.nodeNames

/-- Whether every directory of a tree has only names of entries, and each of them once. -/
def IsProper : FileTree → Prop
  | empty => True
  | file name _ rest => IsName name ∧ name ∉ rest.nodeNames ∧ rest.IsProper
  | link name _ rest => IsName name ∧ name ∉ rest.nodeNames ∧ rest.IsProper
  | directory name children rest =>
    IsName name ∧ name ∉ rest.nodeNames ∧ children.IsProper ∧ rest.IsProper

instance : (tree : FileTree) → Decidable tree.IsProper
  | empty => .isTrue trivial
  | file name _ rest =>
    have := instDecidableIsProper rest
    inferInstanceAs (Decidable (IsName name ∧ name ∉ rest.nodeNames ∧ rest.IsProper))
  | link name _ rest =>
    have := instDecidableIsProper rest
    inferInstanceAs (Decidable (IsName name ∧ name ∉ rest.nodeNames ∧ rest.IsProper))
  | directory name children rest =>
    have := instDecidableIsProper children
    have := instDecidableIsProper rest
    inferInstanceAs
      (Decidable (IsName name ∧ name ∉ rest.nodeNames ∧ children.IsProper ∧ rest.IsProper))

/-- The names on the way to each entry of a tree, with its kind. -/
def listing : FileTree → List (List String × EntryKind)
  | empty => []
  | file name _ rest => ([name], .file) :: rest.listing
  | link name _ rest => ([name], .file) :: rest.listing
  | directory name children rest =>
    ([name], .directory) :: children.listing.map (fun (names, kind) => (name :: names, kind)) ++
      rest.listing

/-- The path of an entry as it is written: that of a directory has a slash at its end. -/
def writtenPath (names : List String) : EntryKind → String
  | .file => .ofList (pathOf names)
  | .directory => .ofList (pathOf names ++ ['/'])

/-- Whether no part of a path, itself included, is named `.git` or matched by an exclude glob. -/
def IsVisible (exclude : List Glob) (names : List String) : Prop :=
  ∀ front ∈ names.inits, front ≠ [] → front.getLast? ≠ some gitName ∧
    ∀ glob ∈ exclude, glob.isMatch (pathOf front) = false

instance (exclude : List Glob) (names : List String) : Decidable (IsVisible exclude names) :=
  List.decidableBAll _ names.inits

/-- The written paths of a tree of which no part is named `.git` or matched by an exclude glob. -/
def visiblePaths (exclude : List Glob) (tree : FileTree) : List String :=
  (tree.listing.filter fun (names, _) => IsVisible exclude names).map fun (names, kind) =>
    writtenPath names kind

variable {exclude : List Glob} {root : List Char} {above names : List String} {name : String}
  {kind : EntryKind} {tree : FileTree}

/-- The listing of a tree has what the tree holds. -/
theorem mem_listing : (names, kind) ∈ tree.listing ↔ tree.Holds names kind := by
  induction tree generalizing names kind with
  | empty =>
    constructor
    · intro h
      cases h
    · intro h
      cases h
  | file other contents rest ih =>
    rw [listing, List.mem_cons, ih, Prod.mk.injEq]
    constructor
    · intro h
      rcases h with ⟨rfl, rfl⟩ | hrest
      · exact .file
      · exact .besideFile hrest
    · intro h
      cases h with
      | file => exact .inl ⟨rfl, rfl⟩
      | besideFile hrest => exact .inr hrest
  | link other target rest ih =>
    rw [listing, List.mem_cons, ih, Prod.mk.injEq]
    constructor
    · intro h
      rcases h with ⟨rfl, rfl⟩ | hrest
      · exact .link
      · exact .besideLink hrest
    · intro h
      cases h with
      | link => exact .inl ⟨rfl, rfl⟩
      | besideLink hrest => exact .inr hrest
  | directory other children rest ihchildren ih =>
    have hbelow : (names, kind) ∈ children.listing.map (fun (names, kind) => (other :: names, kind)) ↔
        ∃ inner, children.Holds inner kind ∧ other :: inner = names := by
      simp [List.mem_map, ihchildren, and_comm]
    rw [listing, List.mem_append, List.mem_cons, ih, Prod.mk.injEq, hbelow]
    constructor
    · intro h
      rcases h with (⟨rfl, rfl⟩ | ⟨inner, hinner, rfl⟩) | hrest
      · exact .directory
      · exact .within hinner
      · exact .besideDirectory hrest
    · intro h
      cases h with
      | directory => exact .inl (.inl ⟨rfl, rfl⟩)
      | within hinner => exact .inl (.inr ⟨_, hinner, rfl⟩)
      | besideDirectory hrest => exact .inr hrest

/-- A part of a visible path is visible. -/
theorem IsVisible.of_append {front back : List String} (h : IsVisible exclude (front ++ back)) :
    IsVisible exclude front := by
  intro part hpart
  apply h part
  rw [List.mem_inits] at hpart ⊢
  exact hpart.trans (List.prefix_append front back)

/-- The written paths that are visible are those of the entries that are. -/
theorem mem_visiblePaths {written : String} : written ∈ tree.visiblePaths exclude ↔
    ∃ names kind, tree.Holds names kind ∧ IsVisible exclude names ∧
      written = writtenPath names kind := by
  rw [visiblePaths, List.mem_map]
  constructor
  · intro h
    obtain ⟨⟨names, kind⟩, hmem, rfl⟩ := h
    obtain ⟨hlisted, hvisible⟩ := List.mem_filter.mp hmem
    exact ⟨names, kind, mem_listing.mp hlisted, by simpa using hvisible, rfl⟩
  · intro h
    obtain ⟨names, kind, hholds, hvisible, rfl⟩ := h
    exact ⟨(names, kind), List.mem_filter.mpr ⟨mem_listing.mpr hholds, by simpa using hvisible⟩, rfl⟩

/-- On the way to an entry there are only directories. -/
theorem Holds.of_append {front back : List String} (hfront : front ≠ []) (hback : back ≠ [])
    (h : tree.Holds (front ++ back) kind) : tree.Holds front .directory := by
  generalize hnames : front ++ back = names at h
  induction h generalizing front with
  | file => simp_all [List.append_eq_singleton_iff]
  | link => simp_all [List.append_eq_singleton_iff]
  | directory => simp_all [List.append_eq_singleton_iff]
  | within hchildren ih =>
    obtain ⟨first, front, rfl⟩ := List.exists_cons_of_ne_nil hfront
    obtain ⟨rfl, hinner⟩ := List.cons.inj hnames
    cases front with
    | nil => exact .directory
    | cons next front => exact .within (ih (List.cons_ne_nil next front) hinner)
  | besideFile _ ih => exact .besideFile (ih hfront hnames)
  | besideLink _ ih => exact .besideLink (ih hfront hnames)
  | besideDirectory _ ih => exact .besideDirectory (ih hfront hnames)

/-- The way to an entry starts in the directory that it is listed from. -/
theorem Holds.exists_cons (h : tree.Holds names kind) :
    ∃ first rest, first ∈ tree.nodeNames ∧ names = first :: rest := by
  induction h with
  | file => exact ⟨_, [], List.mem_cons_self, rfl⟩
  | link => exact ⟨_, [], List.mem_cons_self, rfl⟩
  | directory => exact ⟨_, [], List.mem_cons_self, rfl⟩
  | within _ _ => exact ⟨_, _, List.mem_cons_self, rfl⟩
  | besideFile _ ih =>
    obtain ⟨first, rest, hfirst, hnames⟩ := ih
    exact ⟨first, rest, List.mem_cons_of_mem _ hfirst, hnames⟩
  | besideLink _ ih =>
    obtain ⟨first, rest, hfirst, hnames⟩ := ih
    exact ⟨first, rest, List.mem_cons_of_mem _ hfirst, hnames⟩
  | besideDirectory _ ih =>
    obtain ⟨first, rest, hfirst, hnames⟩ := ih
    exact ⟨first, rest, List.mem_cons_of_mem _ hfirst, hnames⟩

theorem IsProper.hasNames (h : tree.IsProper) : tree.HasNames := by
  induction tree with
  | empty => exact trivial
  | file name contents rest ih => exact ⟨h.1, ih h.2.2⟩
  | link name target rest ih => exact ⟨h.1, ih h.2.2⟩
  | directory name children rest ihchildren ih =>
    exact ⟨h.1, ihchildren h.2.2.1, ih h.2.2.2⟩

section Paths

/-- Names are known from their path. -/
theorem pathOf_injective {others : List String} (hne : names ≠ []) (hothers : others ≠ [])
    (hnames : ∀ name ∈ names, IsName name) (hisName : ∀ name ∈ others, IsName name)
    (h : pathOf names = pathOf others) : names = others := by
  have hsegments := congrArg segments h
  rw [segments_pathOf hne hnames, segments_pathOf hothers hisName] at hsegments
  exact List.map_injective_iff.mpr (fun a b => String.toList_inj.mp) hsegments

variable (hnames : ∀ name ∈ names, IsName name)

include hnames

/-- The paths of names are well-formed. -/
theorem isWellFormed_pathOf (hne : names ≠ []) : IsWellFormed (pathOf names) := by
  rw [IsWellFormed, segments_pathOf hne hnames]
  intro segment hsegment
  obtain ⟨name, hname, rfl⟩ := List.mem_map.mp hsegment
  obtain ⟨hempty, -, hdot, hdots⟩ := hnames name hname
  refine ⟨by simpa using hempty, fun h => hdot ?_, fun h => hdots ?_⟩
  · exact String.toList_inj.mp h
  · exact String.toList_inj.mp h

/-- The directories above a path of names are the paths of fewer names. -/
theorem exists_append_of_mem_parents (hne : names ≠ []) {parent : List Char}
    (h : parent ∈ Snapshot.parents (pathOf names)) :
    ∃ front back, front ≠ [] ∧ back ≠ [] ∧ names = front ++ back ∧ parent = pathOf front := by
  obtain ⟨rest, hpath⟩ := Snapshot.mem_parents.mp h
  have hsegments : names.map String.toList = segments parent ++ segments rest := by
    rw [← segments_pathOf hne hnames, hpath]
    exact split_append_cons parent rest
  obtain ⟨front, back, rfl, hfront, hback⟩ := List.map_eq_append_iff.mp hsegments
  refine ⟨front, back, ?_, ?_, rfl, ?_⟩
  · rintro rfl
    exact split_ne_nil parent hfront.symm
  · rintro rfl
    exact split_ne_nil rest hback.symm
  · rw [pathOf, hfront]
    exact (join_split '/' parent).symm

/-- A written path stands for its entry and for the directories above it. -/
theorem entriesOfPath_writtenPath (hne : names ≠ []) (kind : EntryKind) :
    Snapshot.entriesOfPath (writtenPath names kind) = entryOf names kind ::
      (Snapshot.parents (pathOf names)).map fun parent => ⟨.ofList parent, .directory⟩ := by
  have hformed := isWellFormed_pathOf hnames hne
  have hslash : (pathOf names).getLast? ≠ some '/' := by
    simpa [endsInSlash] using hformed.endsInSlash
  have hpath : dropLastOf '/' (writtenPath names kind).toList = pathOf names := by
    cases kind with
    | file => rw [writtenPath, String.toList_ofList, dropLastOf, if_neg hslash]
    | directory =>
      rw [writtenPath, String.toList_ofList, dropLastOf, if_pos List.getLast?_concat,
        List.dropLast_concat]
  have hkind : (if endsInSlash (writtenPath names kind).toList then EntryKind.directory else .file) =
      kind := by
    cases kind with
    | file => rw [writtenPath, String.toList_ofList, hformed.endsInSlash, if_neg (by decide)]
    | directory =>
      rw [writtenPath, String.toList_ofList, endsInSlash_append (by decide)]
      rfl
  rw [← hpath] at hformed
  rw [Snapshot.entriesOfPath_of_isWellFormed hformed, hpath, hkind, entryOf]

/-- As a member of a set, a glob matches the paths of names that it matches alone. -/
theorem isMatchInSet_pathOf (hne : names ≠ []) (glob : Glob) :
    glob.isMatchInSet (pathOf names) = glob.isMatch (pathOf names) := by
  have hlast : lastSegment (pathOf names) ≠ ['.', '.'] := by
    rw [lastSegment, segments_pathOf hne hnames]
    obtain ⟨front, last, rfl⟩ := List.eq_nil_or_concat names |>.resolve_left hne
    intro hdots
    have hlast : last.toList = ['.', '.'] := by simpa using hdots
    exact (hnames last (by simp)).2.2.2 (String.toList_inj.mp hlast)
  simp [Glob.isMatchInSet, hlast]

/-- What is visible is kept, and nothing else. -/
theorem isVisible_iff_isKept : IsVisible exclude names ↔ IsKept exclude names := by
  constructor
  · intro h
    constructor
    · intro hgit
      obtain ⟨front, back, rfl⟩ := List.append_of_mem hgit
      have hfront : front ++ [gitName] ∈ (front ++ gitName :: back).inits :=
        (List.mem_inits _ _).mpr ⟨back, by simp⟩
      exact (h _ hfront (by simp)).1 List.getLast?_concat
    · intro front hfront hne glob hglob
      rw [isMatchInSet_pathOf (fun name hname => hnames name (hfront.subset hname)) hne]
      exact (h front ((List.mem_inits _ _).mpr hfront) hne).2 glob hglob
  · intro h front hmem hne
    have hfront := (List.mem_inits _ _).mp hmem
    refine ⟨?_, fun glob hglob => ?_⟩
    · intro hlast
      exact h.gitName_notMem (hfront.subset (List.mem_of_getLast? hlast))
    · rw [← isMatchInSet_pathOf (fun name hname => hnames name (hfront.subset hname)) hne]
      exact h.isMatchInSet front hfront hne glob hglob

end Paths

section Walk

/-- The paths of a walk lead through the directory that it starts in. -/
theorem exists_of_mem_map_path_walk {path : String} (hproper : tree.IsProper)
    (habove : ∀ other ∈ above, IsName other) (hkept : IsKept exclude above)
    (h : path ∈ (walk exclude root (placeOf root above) tree).map Entry.path) :
    ∃ first rest, first ∈ tree.nodeNames ∧ (∀ name ∈ above ++ first :: rest, IsName name) ∧
      path.toList = pathOf (above ++ first :: rest) := by
  obtain ⟨entry, hentry, rfl⟩ := List.mem_map.mp h
  obtain ⟨names, kind, hholds, -, rfl⟩ := (mem_walk hproper.hasNames habove hkept).mp hentry
  obtain ⟨first, rest, hfirst, rfl⟩ := hholds.exists_cons
  refine ⟨first, rest, hfirst, fun name hname => ?_, String.toList_ofList⟩
  rcases List.mem_append.mp hname with hname | hname
  · exact habove name hname
  · exact hholds.isName hproper.hasNames name hname

/-- The path of another name in a directory is not one of a walk through it. -/
theorem notMem_map_path_walk {path : String} {rest : List String} (hproper : tree.IsProper)
    (habove : ∀ other ∈ above, IsName other) (hkept : IsKept exclude above)
    (hname : name ∉ tree.nodeNames) (hisName : ∀ other ∈ above ++ name :: rest, IsName other)
    (hpath : path.toList = pathOf (above ++ name :: rest)) :
    path ∉ (walk exclude root (placeOf root above) tree).map Entry.path := by
  intro h
  obtain ⟨first, others, hfirst, hnames, hother⟩ :=
    exists_of_mem_map_path_walk hproper habove hkept h
  have heq := pathOf_injective (by simp) (by simp) hisName hnames (hpath.symm.trans hother)
  obtain ⟨rfl, -⟩ := List.cons.inj (List.append_cancel_left heq)
  exact hname hfirst

/-- A file or link comes once before a walk through the other entries of its directory. -/
theorem nodup_map_path_recordOfFile_append (hproper : tree.IsProper)
    (habove : ∀ other ∈ above, IsName other) (hkept : IsKept exclude above) (hname : IsName name)
    (hother : name ∉ tree.nodeNames)
    (hwalk : ((walk exclude root (placeOf root above) tree).map Entry.path).Nodup) :
    ((recordOfFile exclude root (placeOf root above) name ++ walk exclude root (placeOf root above) tree).map
      Entry.path).Nodup := by
  have hnames := isName_concat habove hname
  rw [recordOfFile, ← placeOf_append_singleton]
  split
  · exact hwalk
  · rw [recordOf_placeOf hnames, List.singleton_append, List.map_cons, List.nodup_cons]
    refine ⟨?_, hwalk⟩
    exact notMem_map_path_walk hproper habove hkept hother hnames String.toList_ofList

/-- A walk through a proper tree comes to each path once. The induction is on the tree, with the names
on the way to it, which are kept wherever the walk comes to. -/
theorem nodup_map_path_walk (hproper : tree.IsProper) (habove : ∀ other ∈ above, IsName other)
    (hkept : IsKept exclude above) :
    ((walk exclude root (placeOf root above) tree).map Entry.path).Nodup := by
  induction tree generalizing above with
  | empty => exact List.nodup_nil
  | file name contents rest ih =>
    rw [walk]
    exact nodup_map_path_recordOfFile_append hproper.2.2 habove hkept hproper.1 hproper.2.1
      (ih hproper.2.2 habove hkept)
  | link name target rest ih =>
    rw [walk]
    exact nodup_map_path_recordOfFile_append hproper.2.2 habove hkept hproper.1 hproper.2.1
      (ih hproper.2.2 habove hkept)
  | directory name children rest ihchildren ih =>
    obtain ⟨hname, hother, hchildren, hrest⟩ := hproper
    have hbelow := isName_concat habove hname
    rw [walk, ← placeOf_append_singleton]
    split
    · exact ih hrest habove hkept
    · rename_i hleft
      have hdirectory : IsKept exclude (above ++ [name]) :=
        (isKept_append_singleton root hbelow).mpr ⟨hkept, by simpa using hleft⟩
      have hinside {path : String}
          (h : path ∈ (walk exclude root (placeOf root (above ++ [name])) children).map Entry.path) :
          ∃ first others, (∀ other ∈ above ++ name :: first :: others, IsName other) ∧
            path.toList = pathOf (above ++ name :: first :: others) := by
        obtain ⟨first, others, -, hnames, hpath⟩ :=
          exists_of_mem_map_path_walk hchildren hbelow hdirectory h
        rw [List.append_assoc, List.singleton_append] at hnames hpath
        exact ⟨first, others, hnames, hpath⟩
      rw [recordOf_placeOf hbelow, List.singleton_append, List.map_append, List.nodup_append', List.map_cons, List.nodup_cons]
      refine ⟨⟨?_, ihchildren hchildren hbelow hdirectory⟩, ih hrest habove hkept, ?_⟩
      · intro hown
        obtain ⟨first, others, hnames, hpath⟩ := hinside hown
        rw [entryOf, String.toList_ofList] at hpath
        have heq := pathOf_injective (by simp) (by simp) hbelow hnames hpath
        simp at heq
      · intro path hpath
        rcases List.mem_cons.mp hpath with rfl | hpath
        · exact notMem_map_path_walk hrest habove hkept hother hbelow String.toList_ofList
        · obtain ⟨first, others, hnames, hpath⟩ := hinside hpath
          exact notMem_map_path_walk hrest habove hkept hother hnames hpath

end Walk

section Snapshot

variable {top : FileTree}

/-- A walk comes exactly to the visible entries of a tree. -/
theorem mem_walk_iff_isVisible (hproper : top.IsProper) {entry : Entry} :
    entry ∈ top.walk exclude root root ↔
      ∃ names kind, top.Holds names kind ∧ IsVisible exclude names ∧ entry = entryOf names kind := by
  rw [← Snapshot.mem_ofEntries, mem_ofEntries_walk hproper.hasNames]
  refine exists_congr fun names => exists_congr fun kind => and_congr_right fun hholds => ?_
  rw [isVisible_iff_isKept (hholds.isName hproper.hasNames)]

/-- A walk comes to the directories above each entry that it comes to. -/
theorem mem_walk_of_mem_parents (hproper : top.IsProper) {parent : List Char}
    (hholds : top.Holds names kind) (hvisible : IsVisible exclude names)
    (hparent : parent ∈ Snapshot.parents (pathOf names)) :
    ⟨.ofList parent, .directory⟩ ∈ top.walk exclude root root := by
  obtain ⟨front, back, hfront, hback, rfl, rfl⟩ :=
    exists_append_of_mem_parents (hholds.isName hproper.hasNames) hholds.ne_nil hparent
  refine (mem_walk_iff_isVisible hproper).mpr ⟨front, .directory, ?_, hvisible.of_append, rfl⟩
  exact hholds.of_append hfront hback

/-- A walk and the visible paths have the same snapshot. -/
theorem ofEntries_walk_eq_ofPaths (hproper : top.IsProper) (exclude : List Glob) :
    Snapshot.ofEntries (top.walk exclude root root) = .ofPaths (top.visiblePaths exclude) := by
  rw [Snapshot.ofPaths]
  apply Snapshot.ofEntries_congr
  intro entry
  rw [List.mem_flatMap]
  constructor
  · intro h
    obtain ⟨names, kind, hholds, hvisible, rfl⟩ := (mem_walk_iff_isVisible hproper).mp h
    refine ⟨_, mem_visiblePaths.mpr ⟨names, kind, hholds, hvisible, rfl⟩, ?_⟩
    rw [entriesOfPath_writtenPath (hholds.isName hproper.hasNames) hholds.ne_nil]
    exact List.mem_cons_self
  · intro h
    obtain ⟨written, hwritten, hentry⟩ := h
    obtain ⟨names, kind, hholds, hvisible, rfl⟩ := mem_visiblePaths.mp hwritten
    rw [entriesOfPath_writtenPath (hholds.isName hproper.hasNames) hholds.ne_nil] at hentry
    rcases List.mem_cons.mp hentry with rfl | habove
    · exact (mem_walk_iff_isVisible hproper).mpr ⟨names, kind, hholds, hvisible, rfl⟩
    · obtain ⟨parent, hparent, rfl⟩ := List.mem_map.mp habove
      exact mem_walk_of_mem_parents hproper hholds hvisible hparent

/-- A walk from the top of a proper tree comes to each path once. -/
theorem nodup_map_path_walk_root (hproper : top.IsProper) (exclude : List Glob) (root : List Char) :
    ((top.walk exclude root root).map Entry.path).Nodup :=
  nodup_map_path_walk hproper (List.forall_mem_nil _) isKept_nil

/-- The snapshot of a walk holds each entry of the walk once. -/
theorem perm_ofEntries_walk (hproper : top.IsProper) (exclude : List Glob) (root : List Char) :
    (Snapshot.ofEntries (top.walk exclude root root)).entries.Perm (top.walk exclude root root) := by
  rw [List.perm_ext_iff_of_nodup (Snapshot.nodup_ofEntries _)
    (nodup_map_path_walk_root hproper exclude root).of_map]
  exact fun _ => Snapshot.mem_ofEntries

end Snapshot

/-- What the snapshot of a directory has to do with the directory: it is the snapshot of its visible
paths, in which every entry of the walk stands once and below the directories above it, and which shows
nothing else to a query or a check. -/
structure Mirrors (snapshot : Snapshot) (top : FileTree) (root : List Char) (globs : List Glob) :
    Prop where
  eq_ofPaths : snapshot = .ofPaths (top.visiblePaths globs)
  perm_walk : snapshot.entries.Perm (top.walk globs root root)
  nodup : (snapshot.entries.map Entry.path).Nodup
  above : ∀ entry ∈ snapshot.entries, ∀ parent ∈ Snapshot.parents entry.path.toList,
    ⟨.ofList parent, .directory⟩ ∈ snapshot.entries
  matched : ∀ pattern paths, snapshot.pathsMatching pattern = .ok paths → ∀ path ∈ paths,
    ∃ names kind, top.Holds names kind ∧ IsVisible globs names ∧ (entryOf names kind).IsNamed path
  probed : ∀ pattern, snapshot.anyMatching pattern = .ok true →
    ∃ query names kind, EntryQuery.ofPattern pattern = .ok query ∧ top.Holds names kind ∧
      IsVisible globs names ∧ query.selects (entryOf names kind) = true
  reported : ∀ rules alsoAllowed report, snapshot.checkAllowing rules alsoAllowed = .ok report →
    ∀ violation ∈ report.violations, ∃ names kind, top.Holds names kind ∧ IsVisible globs names ∧
      (entryOf names kind).IsNamed violation.path

/-- A directory that is there has a snapshot, which mirrors what is visible in it. -/
theorem capture_eq_ofPaths {system : FileSystem} {top : FileTree} {root : String}
    {patterns : List String} {globs : List Glob} (htop : system.directory? root = some top)
    (hproper : top.IsProper) (hglobs : patterns.mapM Glob.compile = .ok globs) :
    ∃ snapshot, system.capture root patterns = .ok snapshot ∧
      Mirrors snapshot top root.toList globs := by
  have hcapture : system.capture root patterns =
      .ok (.ofEntries (top.walk globs root.toList root.toList)) := by
    rw [FileSystem.capture, htop]
    dsimp only
    rw [hglobs]
    rfl
  have hperm := perm_ofEntries_walk hproper globs root.toList
  have hvisible {entry : Entry} (hentry : entry ∈
      (Snapshot.ofEntries (top.walk globs root.toList root.toList)).entries) :
      ∃ names kind, top.Holds names kind ∧ IsVisible globs names ∧ entry = entryOf names kind :=
    (mem_walk_iff_isVisible hproper).mp (Snapshot.mem_ofEntries.mp hentry)
  refine ⟨_, hcapture, ofEntries_walk_eq_ofPaths hproper globs, hperm, ?_, ?_, ?_, ?_, ?_⟩
  · rw [(hperm.map Entry.path).nodup_iff]
    exact nodup_map_path_walk_root hproper globs root.toList
  · intro entry hentry parent hparent
    obtain ⟨names, kind, hholds, hshown, rfl⟩ := hvisible hentry
    rw [entryOf, String.toList_ofList] at hparent
    exact Snapshot.mem_ofEntries.mpr (mem_walk_of_mem_parents hproper hholds hshown hparent)
  · intro pattern paths hpaths path hpath
    obtain ⟨entry, hentry, hnamed⟩ := Snapshot.exists_isNamed_of_pathsMatching hpaths hpath
    obtain ⟨names, kind, hholds, hshown, rfl⟩ := hvisible hentry
    exact ⟨names, kind, hholds, hshown, hnamed⟩
  · intro pattern hprobe
    rw [Snapshot.anyMatching] at hprobe
    obtain ⟨query, hquery, hany⟩ := bind_eq_ok_iff.mp hprobe
    obtain ⟨entry, hentry, hselects⟩ := List.any_eq_true.mp (Except.ok.inj hany)
    obtain ⟨names, kind, hholds, hshown, rfl⟩ := hvisible hentry
    exact ⟨query, names, kind, hquery, hholds, hshown, hselects⟩
  · intro rules alsoAllowed report hcheck violation hviolation
    obtain ⟨entry, hentry, hnamed⟩ := Snapshot.exists_isNamed_of_checkAllowing hcheck hviolation
    obtain ⟨names, kind, hholds, hshown, rfl⟩ := hvisible hentry
    exact ⟨names, kind, hholds, hshown, hnamed⟩

/-- A project with a submodule in `lib`, whose `.git` is a file, a link to it, and a directory of which
only the contents are excluded. -/
def sampleModule : FileTree :=
  .directory "docs" (.file "a.md" .empty .empty)
    (.directory "lib" (.file ".git" .empty (.file "a.rs" .empty .empty))
      (.link "latest" "lib" (.directory "target" (.file "app" .empty .empty) .empty)))

/-- The module with a link to it. -/
def linkedModule : FileTree := .link "current" "./sample" (.directory "sample" sampleModule .empty)

/-- The snapshot of the module through the link shows neither the submodule's `.git` nor what is
excluded, and the link in it as a file. -/
theorem capture_eq_ofPaths_sampleModule :
    FileSystem.directory? linkedModule "current" = some sampleModule ∧
    sampleModule.IsProper ∧
    ["target", "docs/*"].mapM Glob.compile = .ok [⟨"target", "target".toList.map .literal⟩,
      ⟨"docs/*", "docs/".toList.map .literal ++ [.anyRun]⟩] ∧
    ∃ snapshot, FileSystem.capture linkedModule "current" ["target", "docs/*"] = .ok snapshot ∧
      snapshot = .ofPaths ["docs/", "lib/", "lib/a.rs", "latest"] := by
  have htop : FileSystem.directory? linkedModule "current" = some sampleModule := rfl
  have hproper : sampleModule.IsProper := by decide
  have hglobs : ["target", "docs/*"].mapM Glob.compile =
      .ok [⟨"target", "target".toList.map .literal⟩,
        ⟨"docs/*", "docs/".toList.map .literal ++ [.anyRun]⟩] := by decide +kernel
  refine ⟨htop, hproper, hglobs, ?_⟩
  obtain ⟨snapshot, hcapture, hmirrors⟩ := capture_eq_ofPaths htop hproper hglobs
  refine ⟨snapshot, hcapture, hmirrors.eq_ofPaths.trans (congrArg Snapshot.ofPaths ?_)⟩
  decide +kernel

end FileTree

end TreeLayout
