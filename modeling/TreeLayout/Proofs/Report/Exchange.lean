import TreeLayout.Proofs.Report.Violations

/-!
# Exchanging rules

The violations of a tree depend on the rules that forbid, in their order, and on which files some rule
matches. So rules that allow can be exchanged for others that match the same files, wherever they stand
among the rules (`Snapshot.violations_exchange`).
-/

namespace TreeLayout.Snapshot

variable {snapshot : Snapshot} {rules others front back : List Rule} {alsoAllowed : String → Bool}

theorem allGlobs_append : AllGlobs (rules ++ others) ↔ AllGlobs rules ∧ AllGlobs others :=
  List.forall_mem_append

/-- Rules one after another forbid what each of them forbids. -/
theorem prohibitions_append : snapshot.prohibitions (rules ++ others) =
    snapshot.prohibitions rules ++ snapshot.prohibitions others := List.flatMap_append

/-- Rules that allow forbid nothing. -/
theorem prohibitions_of_forall (h : ∀ rule ∈ rules, rule.negated = false) :
    snapshot.prohibitions rules = [] := by
  rw [prohibitions, List.flatMap_eq_nil_iff]
  intro rule hrule
  rw [h rule hrule, if_neg (by decide)]

/-- Rules that allow have no part in what is forbidden. -/
theorem forbidden_exchange (hrules : ∀ rule ∈ rules, rule.negated = false)
    (hothers : ∀ rule ∈ others, rule.negated = false) :
    snapshot.forbidden (front ++ rules ++ back) = snapshot.forbidden (front ++ others ++ back) := by
  rw [forbidden, forbidden, prohibitions_append, prohibitions_append, prohibitions_append,
    prohibitions_append, prohibitions_of_forall hrules, prohibitions_of_forall hothers]

/-- Rules that match the same files leave the same files without permission. -/
theorem unallowed_congr (h : ∀ file ∈ snapshot.files,
      ((∃ rule ∈ rules, file ∈ snapshot.matchedBy rule) ↔
        ∃ rule ∈ others, file ∈ snapshot.matchedBy rule)) :
    snapshot.unallowed rules alsoAllowed = snapshot.unallowed others alsoAllowed := by
  refine List.filter_congr fun file hfile => congrArg (· && !alsoAllowed file) ?_
  have hiff := not_congr (h file hfile)
  push Not at hiff
  rw [Bool.eq_iff_iff]
  simpa using hiff

/-- Exchanging rules that allow for others that match the same files keeps the violations. -/
theorem violations_exchange (hglobs : AllGlobs (front ++ rules ++ back))
    (hotherGlobs : AllGlobs (front ++ others ++ back))
    (hrules : ∀ rule ∈ rules, rule.negated = false)
    (hothers : ∀ rule ∈ others, rule.negated = false)
    (hmatched : ∀ file ∈ snapshot.files, ((∃ rule ∈ rules, file ∈ snapshot.matchedBy rule) ↔
      ∃ rule ∈ others, file ∈ snapshot.matchedBy rule)) (alsoAllowed : String → Bool) :
    ∃ report other, snapshot.checkAllowing (front ++ rules ++ back) alsoAllowed = .ok report ∧
      snapshot.checkAllowing (front ++ others ++ back) alsoAllowed = .ok other ∧
      report.violations = other.violations := by
  have hfiles : ∀ file ∈ snapshot.files,
      ((∃ rule ∈ front ++ rules ++ back, file ∈ snapshot.matchedBy rule) ↔
        ∃ rule ∈ front ++ others ++ back, file ∈ snapshot.matchedBy rule) := by
    intro file hfile
    simp only [List.mem_append, or_and_right, exists_or, hmatched file hfile]
  refine ⟨_, _, checkAllowing_of_allGlobs hglobs alsoAllowed,
    checkAllowing_of_allGlobs hotherGlobs alsoAllowed, ?_⟩
  dsimp only
  rw [unallowed_congr hfiles, forbidden_exchange hrules hothers]

end TreeLayout.Snapshot
