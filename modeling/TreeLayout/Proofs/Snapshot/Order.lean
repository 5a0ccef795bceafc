import TreeLayout.Proofs.Snapshot.Entries

/-!
# The order of a snapshot

Paths are ordered by their segments, and entries by their paths, a directory before a file of the same
path. This is a linear order, so a snapshot is known from the entries that it holds: neither their
order nor their repetitions matter for how they were given (`ofEntries_congr`).
-/

namespace TreeLayout

namespace Text

/-- Segments are ordered as in the lexicographic order of lists. -/
theorem segmentsLe_iff_not_lt {p q : List (List Char)} : segmentsLe p q = true ↔ ¬ q < p := by
  fun_induction segmentsLe p q with
  | case1 q => simp
  | case2 a p => simp
  | case3 p a q ih => rw [ih, List.cons_lt_cons_self]
  | case4 a p b q hne => simp [List.cons_lt_cons_iff, Ne.symm hne]

/-- A path is known from its segments. -/
theorem segments_injective {p q : List Char} (h : segments p = segments q) : p = q := by
  rw [← join_split '/' p, ← join_split '/' q]
  exact congrArg (join '/') h

end Text

namespace Entry

open Text

variable {a b c : Entry}

/-- Entries of one path are ordered by their kinds. -/
theorem le_of_path_eq (h : a.path = b.path) :
    Entry.le a b = true ↔ (a.isDirectory = false → b.isDirectory = false) := by
  rw [Entry.le, if_pos h]
  cases a.isDirectory <;> simp

/-- Entries of different paths are ordered by the segments of these. -/
theorem le_of_path_ne (h : a.path ≠ b.path) :
    Entry.le a b = true ↔ ¬ segments b.path.toList < segments a.path.toList := by
  rw [Entry.le, if_neg h, pathLe, segmentsLe_iff_not_lt]

/-- The segments of entries are in the order of the entries. -/
theorem not_segments_lt_of_le (h : Entry.le a b = true) :
    ¬ segments b.path.toList < segments a.path.toList := by
  by_cases hpath : a.path = b.path
  · rw [hpath]
    exact List.lt_irrefl _
  · exact (le_of_path_ne hpath).mp h

/-- Entries whose segments are ordered both ways have one path. -/
theorem path_eq_of_not_segments_lt (hab : ¬ segments b.path.toList < segments a.path.toList)
    (hba : ¬ segments a.path.toList < segments b.path.toList) : a.path = b.path :=
  String.toList_inj.mp (segments_injective (List.le_antisymm hab hba))

theorem le_antisymm (hab : Entry.le a b = true) (hba : Entry.le b a = true) : a = b := by
  have hpath := path_eq_of_not_segments_lt (not_segments_lt_of_le hab) (not_segments_lt_of_le hba)
  rw [le_of_path_eq hpath] at hab
  rw [le_of_path_eq hpath.symm] at hba
  obtain ⟨path, kind⟩ := a
  obtain ⟨other, otherKind⟩ := b
  obtain rfl : path = other := hpath
  cases kind <;> cases otherKind <;> simp_all [isDirectory]

theorem le_total (a b : Entry) : Entry.le a b = true ∨ Entry.le b a = true := by
  by_cases hpath : a.path = b.path
  · rw [le_of_path_eq hpath, le_of_path_eq hpath.symm]
    cases a.isDirectory <;> simp
  · rw [le_of_path_ne hpath, le_of_path_ne (Ne.symm hpath)]
    by_cases hlt : segments b.path.toList < segments a.path.toList
    · exact .inr (List.lt_asymm hlt)
    · exact .inl hlt

theorem le_trans (hab : Entry.le a b = true) (hbc : Entry.le b c = true) :
    Entry.le a c = true := by
  have hsegments : ¬ segments c.path.toList < segments a.path.toList :=
    List.le_trans (not_segments_lt_of_le hab) (not_segments_lt_of_le hbc)
  by_cases hac : a.path = c.path
  · -- All three have one path, since that of `b` lies between the others.
    have hpath : a.path = b.path := by
      apply path_eq_of_not_segments_lt (not_segments_lt_of_le hab)
      rw [hac]
      exact not_segments_lt_of_le hbc
    rw [le_of_path_eq hpath] at hab
    rw [le_of_path_eq (hpath.symm.trans hac)] at hbc
    rw [le_of_path_eq hac]
    exact hbc ∘ hab
  · exact (le_of_path_ne hac).mpr hsegments

end Entry

namespace Snapshot

variable {entries others : List Entry}

/-- A snapshot is in order. -/
theorem pairwise_ofEntries (entries : List Entry) :
    (ofEntries entries).entries.Pairwise fun a b => Entry.le a b = true := by
  apply List.pairwise_mergeSort
  · intro a b c hab hbc
    exact Entry.le_trans hab hbc
  · intro a b
    exact Bool.or_eq_true_iff.mpr (Entry.le_total a b)

/-- Snapshots of the same entries are the same. -/
theorem ofEntries_congr (h : ∀ entry, entry ∈ entries ↔ entry ∈ others) :
    ofEntries entries = ofEntries others := by
  have hperm : (ofEntries entries).entries.Perm (ofEntries others).entries := by
    rw [List.perm_ext_iff_of_nodup (nodup_ofEntries entries) (nodup_ofEntries others)]
    intro entry
    rw [mem_ofEntries, mem_ofEntries]
    exact h entry
  have hentries : (ofEntries entries).entries = (ofEntries others).entries :=
    hperm.eq_of_pairwise (fun a b _ _ => Entry.le_antisymm) (pairwise_ofEntries entries)
      (pairwise_ofEntries others)
  exact congrArg Snapshot.mk hentries

end Snapshot

end TreeLayout
