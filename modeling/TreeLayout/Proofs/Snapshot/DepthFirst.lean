import TreeLayout.Proofs.Snapshot.Order
import TreeLayout.Proofs.Snapshot.Query
import TreeLayout.Proofs.Text.ByteOrder

/-!
# Snapshots are in depth-first order

A path lies below another one if it has its segments and more. Lists of segments that start with the same
segments stand together in the lexicographic order, right behind these segments themselves, so a directory
is followed by one block of everything below it (`Snapshot.isDepthFirst_ofPaths`). On raw paths this would
fail, since some characters come before the slash.
-/

namespace TreeLayout

namespace Text

/-- Whether a path goes on behind another one with a slash. -/
def IsBelow (path above : List Char) : Prop := above ++ ['/'] <+: path

instance (path above : List Char) : Decidable (IsBelow path above) :=
  inferInstanceAs (Decidable (above ++ ['/'] <+: path))

/-- A path lies below another one exactly if it has its segments and more. -/
theorem isBelow_iff {path above : List Char} :
    IsBelow path above ↔ segments above <+: segments path ∧ path ≠ above := by
  constructor
  · intro h
    obtain ⟨rest, rfl⟩ := h
    rw [List.append_assoc, List.singleton_append]
    refine ⟨?_, fun heq => ?_⟩
    · rw [segments, segments, split_append_cons]
      exact List.prefix_append _ _
    · have hlength := congrArg List.length heq
      simp at hlength
  · intro h
    obtain ⟨⟨more, hmore⟩, hne⟩ := h
    have hnil : more ≠ [] := by
      intro hnil
      rw [hnil, List.append_nil] at hmore
      exact hne (segments_injective hmore.symm)
    have hslash : ∀ piece ∈ more, '/' ∉ piece := by
      intro piece hpiece
      have hmem : piece ∈ segments path := hmore ▸ List.mem_append_right _ hpiece
      exact notMem_of_mem_split hmem
    refine ⟨join '/' more, segments_injective ?_⟩
    rw [List.append_assoc, List.singleton_append, segments, split_append_cons, split_join hnil hslash]
    exact hmore

/-- Segments come before those that they start. -/
theorem segments_lt_of_isPrefix {p q : List (List Char)} (h : p <+: q) (hne : p ≠ q) : p < q := by
  obtain ⟨rest, rfl⟩ := h
  by_contra hnot
  exact hne (List.le_antisymm List.le_append_left hnot)

/-- What stands between some segments and others that they start is started by them, too. -/
theorem isPrefix_of_between {p q r : List (List Char)} (hpr : p <+: r) (hpq : ¬ q < p)
    (hqr : ¬ r < q) : p <+: q := by
  induction p generalizing q r with
  | nil => exact List.nil_prefix
  | cons a p ih =>
    obtain ⟨rest, rfl⟩ := hpr
    cases q with
    | nil => exact absurd (List.nil_lt_cons a p) hpq
    | cons b q =>
      rw [List.cons_lt_cons_iff, not_or, not_and] at hpq
      rw [List.cons_append, List.cons_lt_cons_iff, not_or, not_and] at hqr
      obtain rfl : a = b := List.le_antisymm hpq.1 hqr.1
      rw [List.prefix_cons_inj]
      exact ih (List.prefix_append p rest) (hpq.2 rfl) (hqr.2 rfl)

end Text

open Text

namespace Entry

variable {a b c : Entry}

/-- The last segment of an entry's path. -/
def name (entry : Entry) : List Char := lastSegment entry.path.toList

/-- Whether the paths of entries differ in their last segments at most. -/
def IsSibling (a b : Entry) : Prop :=
  (segments a.path.toList).dropLast = (segments b.path.toList).dropLast

/-- Whether an entry has the path of another one or lies below it. -/
def IsWithin (entry above : Entry) : Prop :=
  entry.path = above.path ∨ IsBelow entry.path.toList above.path.toList

instance (entry above : Entry) : Decidable (IsWithin entry above) :=
  inferInstanceAs (Decidable (entry.path = above.path ∨ _))

/-- An entry is within another one exactly if it has its segments. -/
theorem isWithin_iff : IsWithin a b ↔ segments b.path.toList <+: segments a.path.toList := by
  rw [IsWithin, isBelow_iff, ne_eq, String.toList_inj]
  constructor
  · intro h
    rcases h with heq | ⟨hfront, -⟩
    · rw [heq]
    · exact hfront
  · intro h
    by_cases heq : a.path = b.path
    · exact .inl heq
    · exact .inr ⟨h, heq⟩

/-- What stands between an entry and one within it is within it. -/
theorem IsWithin.of_between (h : IsWithin c a) (hab : Entry.le a b = true)
    (hbc : Entry.le b c = true) : IsWithin b a := by
  rw [isWithin_iff] at h ⊢
  exact isPrefix_of_between h (not_segments_lt_of_le hab) (not_segments_lt_of_le hbc)

/-- No entry comes before one that it lies below. -/
theorem not_le_of_isBelow (h : IsBelow a.path.toList b.path.toList) : Entry.le a b = false := by
  obtain ⟨hfront, hne⟩ := isBelow_iff.mp h
  have hlt : segments b.path.toList < segments a.path.toList :=
    segments_lt_of_isPrefix hfront fun heq => hne (segments_injective heq).symm
  rw [Bool.eq_false_iff]
  intro hle
  exact not_segments_lt_of_le hle hlt

/-- A directory comes before everything within it. -/
theorem le_of_isWithin (h : IsWithin a b) (hb : b.isDirectory = true) : Entry.le b a = true := by
  rcases h with hpath | hbelow
  · rw [le_of_path_eq hpath.symm, hb]
    simp
  · apply (le_total b a).resolve_right
    rw [not_le_of_isBelow hbelow]
    exact Bool.false_ne_true

/-- Siblings in order are ordered by the bytes of their names; those of one name are a directory and a
file. -/
theorem name_lt_of_isSibling (h : IsSibling a b) (hle : Entry.le a b = true) (hne : a ≠ b) :
    bytes a.name < bytes b.name ∨
      a.path = b.path ∧ a.kind = .directory ∧ b.kind = .file := by
  have hsegments (entry : Entry) : segments entry.path.toList =
      (segments entry.path.toList).dropLast ++ [entry.name] := by
    have hnil : segments entry.path.toList ≠ [] := split_ne_nil _
    rw [name, lastSegment, List.getLastD_eq_getLast?, List.getLast?_eq_getLast_of_ne_nil hnil]
    exact (List.dropLast_concat_getLast hnil).symm
  have horder := not_segments_lt_of_le hle
  by_cases hname : a.name = b.name
  · right
    have hpath : a.path = b.path := by
      apply String.toList_inj.mp
      apply segments_injective
      rw [hsegments a, hsegments b, h, hname]
    rw [le_of_path_eq hpath] at hle
    obtain ⟨path, kind⟩ := a
    obtain ⟨other, otherKind⟩ := b
    obtain rfl : path = other := hpath
    cases kind <;> cases otherKind <;> simp_all [isDirectory]
  · left
    rw [bytes_lt_iff]
    by_contra hnot
    apply horder
    rw [hsegments a, hsegments b, h]
    apply List.append_left_lt
    rw [List.cons_lt_cons_iff]
    left
    by_contra hnot'
    exact hname (List.le_antisymm hnot' hnot)

end Entry

namespace Snapshot

/-- A snapshot in which everything below an entry follows it without gaps, directories are followed by one
block of what is within them, and siblings are ordered by the bytes of their names. -/
structure IsDepthFirst (snapshot : Snapshot) : Prop where
  below : ∀ (i j : ℕ) (above entry : Entry), snapshot.entries[i]? = some above →
    snapshot.entries[j]? = some entry → IsBelow entry.path.toList above.path.toList →
      i < j ∧ ∀ (k : ℕ) (between : Entry), i < k → k < j → snapshot.entries[k]? = some between →
        between.path = above.path ∨ IsBelow between.path.toList above.path.toList
  block : ∀ directory ∈ snapshot.entries, directory.isDirectory = true →
    ∃ front block back, snapshot.entries = front ++ directory :: (block ++ back) ∧
      ∀ entry, entry ∈ block ↔ entry ∈ snapshot.entries ∧ entry ≠ directory ∧
        (entry.path = directory.path ∨ IsBelow entry.path.toList directory.path.toList)
  siblings : snapshot.entries.Pairwise fun a b => a.IsSibling b →
    bytes a.name < bytes b.name ∨ a.path = b.path ∧ a.kind = .directory ∧ b.kind = .file

section Order

variable {entries : List Entry}

/-- Entries at places in order are in order. -/
theorem le_of_getElem? (h : entries.Pairwise fun a b => Entry.le a b = true) {i j : ℕ} {a b : Entry}
    (ha : entries[i]? = some a) (hb : entries[j]? = some b) (hij : i < j) : Entry.le a b = true := by
  obtain ⟨hi, rfl⟩ := List.getElem?_eq_some_iff.mp ha
  obtain ⟨hj, rfl⟩ := List.getElem?_eq_some_iff.mp hb
  exact List.pairwise_iff_getElem.mp h i j hi hj hij

/-- In order, what lies below an entry comes after it, and nothing else between the two. -/
theorem lt_and_between_of_isBelow (h : entries.Pairwise fun a b => Entry.le a b = true) {i j : ℕ}
    {above entry : Entry} (habove : entries[i]? = some above) (hentry : entries[j]? = some entry)
    (hbelow : IsBelow entry.path.toList above.path.toList) :
    i < j ∧ ∀ (k : ℕ) (between : Entry), i < k → k < j → entries[k]? = some between →
      between.IsWithin above := by
  refine ⟨?_, fun k between hik hkj hbetween => ?_⟩
  · rcases Nat.lt_trichotomy i j with hlt | rfl | hgt
    · exact hlt
    · obtain rfl : above = entry := Option.some.inj (habove.symm.trans hentry)
      exact absurd rfl (isBelow_iff.mp hbelow).2
    · have hle := le_of_getElem? h hentry habove hgt
      rw [Entry.not_le_of_isBelow hbelow] at hle
      cases hle
  · have hwithin : entry.IsWithin above := .inr hbelow
    exact hwithin.of_between (le_of_getElem? h habove hbetween hik)
      (le_of_getElem? h hbetween hentry hkj)

/-- Behind a directory and in order, everything within it comes first. -/
theorem mem_takeWhile_isWithin (h : entries.Pairwise fun a b => Entry.le a b = true)
    {directory : Entry} (hbehind : ∀ entry ∈ entries, Entry.le directory entry = true) {entry : Entry} :
    entry ∈ entries.takeWhile (·.IsWithin directory) ↔ entry ∈ entries ∧ entry.IsWithin directory := by
  induction entries with
  | nil => simp
  | cons first entries ih =>
    obtain ⟨hfirst, hsorted⟩ := List.pairwise_cons.mp h
    obtain ⟨hle, hbehind⟩ := List.forall_mem_cons.mp hbehind
    by_cases hwithin : first.IsWithin directory
    · rw [List.takeWhile_cons_of_pos (by simpa using hwithin), List.mem_cons, List.mem_cons,
        ih hsorted hbehind]
      constructor
      · intro hcases
        rcases hcases with rfl | ⟨hmem, hentry⟩
        · exact ⟨.inl rfl, hwithin⟩
        · exact ⟨.inr hmem, hentry⟩
      · intro hboth
        obtain ⟨rfl | hmem, hentry⟩ := hboth
        · exact .inl rfl
        · exact .inr ⟨hmem, hentry⟩
    · -- Nothing later is within the directory, since this entry stands before it and is not.
      rw [List.takeWhile_cons_of_neg (by simpa using hwithin)]
      refine iff_of_false List.not_mem_nil fun hboth => hwithin ?_
      obtain ⟨hmem, hentry⟩ := hboth
      rcases List.mem_cons.mp hmem with rfl | hmem
      · exact hentry
      · exact hentry.of_between hle (hfirst entry hmem)

/-- In order and without repetitions, everything within a directory makes one block behind it. -/
theorem exists_block (h : entries.Pairwise fun a b => Entry.le a b = true) (hnodup : entries.Nodup)
    {directory : Entry} (hmem : directory ∈ entries) (hdirectory : directory.isDirectory = true) :
    ∃ front block back, entries = front ++ directory :: (block ++ back) ∧
      ∀ entry, entry ∈ block ↔ entry ∈ entries ∧ entry ≠ directory ∧ entry.IsWithin directory := by
  obtain ⟨front, rest, rfl⟩ := List.append_of_mem hmem
  obtain ⟨-, hrest, hfront⟩ := List.pairwise_append.mp h
  obtain ⟨hbehind, hsorted⟩ := List.pairwise_cons.mp hrest
  have hnotMem : directory ∉ rest := (List.nodup_cons.mp (List.nodup_append.mp hnodup).2.1).1
  refine ⟨front, rest.takeWhile (·.IsWithin directory), rest.dropWhile (·.IsWithin directory),
    by rw [List.takeWhile_append_dropWhile], fun entry => ?_⟩
  rw [mem_takeWhile_isWithin hsorted hbehind, List.mem_append, List.mem_cons]
  constructor
  · intro hblock
    obtain ⟨hentry, hwithin⟩ := hblock
    refine ⟨.inr (.inr hentry), ?_, hwithin⟩
    rintro rfl
    exact hnotMem hentry
  · intro hentry
    obtain ⟨hbefore | rfl | hentry, hne, hwithin⟩ := hentry
    · have hle := hfront entry hbefore directory List.mem_cons_self
      exact absurd (Entry.le_antisymm hle (Entry.le_of_isWithin hwithin hdirectory)) hne
    · exact absurd rfl hne
    · exact ⟨hentry, hwithin⟩

end Order

/-- A snapshot of entries is in depth-first order. -/
theorem isDepthFirst_ofEntries (entries : List Entry) : (ofEntries entries).IsDepthFirst where
  below _ _ _ _ habove hentry hbelow :=
    lt_and_between_of_isBelow (pairwise_ofEntries entries) habove hentry hbelow
  block _ hmem hdirectory :=
    exists_block (pairwise_ofEntries entries) (nodup_ofEntries entries) hmem hdirectory
  siblings := by
    apply (pairwise_ofEntries entries).imp₂ _ (nodup_ofEntries entries)
    intro a b hle hne hsibling
    exact Entry.name_lt_of_isSibling hsibling hle hne

/-- A snapshot of written paths is in depth-first order, and what a pattern matches is reported in this
order. -/
theorem isDepthFirst_ofPaths (paths : List String) :
    (ofPaths paths).IsDepthFirst ∧
      ∀ pattern query, EntryQuery.ofPattern pattern = .ok query →
        ∃ found : List Entry, found.Sublist (ofPaths paths).entries ∧
          (ofPaths paths).pathsMatching pattern = .ok (found.map query.report) := by
  refine ⟨isDepthFirst_ofEntries _, fun pattern query hquery => ?_⟩
  exact ⟨_, List.filter_sublist, pathsMatching_of_ofPattern hquery _⟩

/-- A directory stands before what lies in it and before a file whose name goes on with a character that
comes before the slash, and answers come in this order. -/
theorem isDepthFirst_ofPaths_lib :
    (ofPaths ["lib/", "lib/a.js", "lib-x.js"]).entries =
      [⟨"lib", .directory⟩, ⟨"lib/a.js", .file⟩, ⟨"lib-x.js", .file⟩] ∧
    (ofPaths ["lib/", "lib/a.js", "lib-x.js"]).pathsMatching "**/*.js" = .ok ["lib/a.js", "lib-x.js"] ∧
    ∃ query, EntryQuery.ofPattern "**/*.js" = .ok query ∧
      ∃ found : List Entry, found.Sublist (ofPaths ["lib/", "lib/a.js", "lib-x.js"]).entries ∧
        found.map query.report = ["lib/a.js", "lib-x.js"] := by
  have hentries : ofPaths ["lib/", "lib/a.js", "lib-x.js"] =
      ⟨[⟨"lib", .directory⟩, ⟨"lib/a.js", .file⟩, ⟨"lib-x.js", .file⟩]⟩ :=
    ofPaths_of_pairwise (by decide +kernel) (by decide +kernel)
  have hquery : EntryQuery.ofPattern "**/*.js" = .ok ⟨⟨"**/*.js",
      [.leadingStars, .anyRun, .literal '.', .literal 'j', .literal 's']⟩, false⟩ := rfl
  have hfound : (ofPaths ["lib/", "lib/a.js", "lib-x.js"]).pathsMatching "**/*.js" =
      .ok ["lib/a.js", "lib-x.js"] := by
    rw [hentries]
    decide +kernel
  obtain ⟨found, hsublist, hmatched⟩ := (isDepthFirst_ofPaths _).2 _ _ hquery
  refine ⟨by rw [hentries], hfound, _, hquery, found, hsublist, ?_⟩
  exact Except.ok.inj (hmatched.symm.trans hfound)

end Snapshot

end TreeLayout
