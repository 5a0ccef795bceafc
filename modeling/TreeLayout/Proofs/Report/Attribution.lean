import TreeLayout.Proofs.Inquiry
import TreeLayout.Proofs.Snapshot.Entries
import TreeLayout.Proofs.Snapshot.Query
import TreeLayout.Report.Check

/-!
# Prohibitions and the rules they come from

The forbidden paths of a tree are collected rule by rule, and a path that has been collected stays
with its rule. So each path is forbidden once, by the first rule whose matches hold it, and the
prohibitions stand in the order of these rules and, for one rule, in the order of the tree.
-/

namespace TreeLayout

namespace Findings

variable {reported : List String} {pairs : List (Rule × String)}

/-- A path is reported for the first rule that it is paired with, unless it is reported already. -/
theorem mem_forbiddenBeyond {violation : Violation} :
    violation ∈ forbiddenBeyond reported pairs ↔ violation.path ∉ reported ∧
      ∃ pair, pairs.find? (fun pair => pair.2 = violation.path) = some pair ∧
        violation.reason = .forbidden pair.1.pattern pair.1.location := by
  induction pairs generalizing reported with
  | nil => simp [forbiddenBeyond]
  | cons pair pairs ih =>
    obtain ⟨rule, path⟩ := pair
    by_cases hpath : path = violation.path
    · subst hpath
      rw [forbiddenBeyond, List.find?_cons_of_pos (by simp)]
      split
      · rename_i hmem
        simp [ih, hmem]
      · rename_i hmem
        simp only [List.mem_cons, ih, hmem, not_false_eq_true, true_and, not_true,
          false_and, or_false, Option.some.injEq, exists_eq_left']
        constructor
        · intro h
          rw [h]
        · intro h
          cases violation
          cases h
          rfl
    · rw [forbiddenBeyond, List.find?_cons_of_neg (by simpa using hpath)]
      split
      · exact ih
      · rw [List.mem_cons, ih]
        have hne : violation ≠ ⟨path, .forbidden rule.pattern rule.location⟩ := by
          intro heq
          subst heq
          exact hpath rfl
        simp [hne, Ne.symm hpath]

/-- A path that is reported already is not reported again. -/
theorem notMem_of_mem_forbiddenBeyond {violation : Violation}
    (h : violation ∈ forbiddenBeyond reported pairs) : violation.path ∉ reported :=
  (mem_forbiddenBeyond.mp h).1

/-- Violations stand in the order in which their paths first appear. -/
theorem pairwise_forbiddenBeyond :
    (forbiddenBeyond reported pairs).Pairwise fun a b =>
      (pairs.map Prod.snd).idxOf a.path < (pairs.map Prod.snd).idxOf b.path := by
  induction pairs generalizing reported with
  | nil => exact .nil
  | cons pair pairs ih =>
    obtain ⟨rule, path⟩ := pair
    have hshift {beyond : List String} (hpath : path ∈ beyond) :
        (forbiddenBeyond beyond pairs).Pairwise fun a b =>
          ((path :: pairs.map Prod.snd).idxOf a.path) <
            ((path :: pairs.map Prod.snd).idxOf b.path) := by
      refine ih.imp_of_mem fun {a b} ha hb hlt => ?_
      have hne {violation : Violation} (hmem : violation ∈ forbiddenBeyond beyond pairs) :
          path ≠ violation.path := by
        intro heq
        subst heq
        exact notMem_of_mem_forbiddenBeyond hmem hpath
      rw [List.idxOf_cons_ne _ (hne ha), List.idxOf_cons_ne _ (hne hb)]
      omega
    rw [forbiddenBeyond]
    split
    · rename_i hpath
      exact hshift hpath
    · refine List.Pairwise.cons (fun violation hmem => ?_) (hshift List.mem_cons_self)
      have hne : path ≠ violation.path := by
        intro heq
        subst heq
        exact notMem_of_mem_forbiddenBeyond hmem List.mem_cons_self
      simp only [List.map_cons]
      rw [List.idxOf_cons_self, List.idxOf_cons_ne _ hne]
      omega

end Findings

namespace Snapshot

/-- The paths that the pattern of a rule matches; none if it is no glob. -/
def matchedBy (snapshot : Snapshot) (rule : Rule) : List String :=
  match snapshot.pathsMatching rule.pattern with
  | .ok paths => paths
  | .error _ => []

/-- Whether a rule forbids a path of a tree. -/
def forbids (snapshot : Snapshot) (path : String) (rule : Rule) : Bool :=
  rule.negated && decide (path ∈ snapshot.matchedBy rule)

/-- The position in a tree of the first entry that the pattern of a rule reports as a path. -/
def position (snapshot : Snapshot) (rule : Rule) (path : String) : Nat :=
  match EntryQuery.ofPattern rule.pattern with
  | .ok query => snapshot.entries.findIdx fun entry => query.selects entry && query.report entry = path
  | .error _ => snapshot.entries.length

/-- The rules that forbid, each with the paths that it forbids. -/
def prohibitions (snapshot : Snapshot) (rules : List Rule) : List (Rule × String) :=
  rules.flatMap fun rule => if rule.negated then (snapshot.matchedBy rule).map (rule, ·) else []

variable {snapshot : Snapshot} {rules : List Rule}

/-- Among the paths with their rules, a path appears first with the first rule that forbids it. -/
theorem find?_prohibitions (path : String) :
    (snapshot.prohibitions rules).find? (fun pair => pair.2 = path) =
      (rules.find? (snapshot.forbids path)).map (·, path) := by
  induction rules with
  | nil => rfl
  | cons rule rules ih =>
    rw [prohibitions, List.flatMap_cons, List.find?_append]
    by_cases hforbids : snapshot.forbids path rule
    · obtain ⟨hnegated, hmem⟩ := Bool.and_eq_true_iff.mp hforbids
      have hfind : (snapshot.matchedBy rule).find? (fun other => other = path) = some path := by
        have hsome : ((snapshot.matchedBy rule).find? fun other => other = path).isSome :=
          List.find?_isSome.mpr ⟨path, of_decide_eq_true hmem, by simp⟩
        obtain ⟨other, hother⟩ := Option.isSome_iff_exists.mp hsome
        have heq : other = path := by simpa using List.find?_some hother
        rw [hother, heq]
      have hpair : ((snapshot.matchedBy rule).map (rule, ·)).find? (fun pair => pair.2 = path) =
          some (rule, path) := by
        rw [List.find?_map]
        exact congrArg (Option.map (rule, ·)) hfind
      rw [List.find?_cons_of_pos hforbids, if_pos hnegated, hpair]
      rfl
    · have hnone : (if rule.negated then (snapshot.matchedBy rule).map (rule, ·) else []).find?
          (fun pair => pair.2 = path) = none := by
        rw [List.find?_eq_none]
        intro pair hpair hpath
        split at hpair
        · rename_i hnegated
          obtain ⟨other, hother, rfl⟩ := List.mem_map.mp hpair
          apply hforbids
          simp_all [forbids]
        · cases hpair
      rw [List.find?_cons_of_neg hforbids, hnone, Option.none_or]
      exact ih

/-- Where one path stands before another in the results of a query, so does its entry in the tree. -/
theorem findIdx_lt_of_idxOf_lt {α β : Type} [DecidableEq β] {p : α → Bool} {f : α → β}
    {items : List α} {a b : β} (ha : a ∈ (items.filter p).map f)
    (h : ((items.filter p).map f).idxOf a < ((items.filter p).map f).idxOf b) :
    items.findIdx (fun item => p item && f item = a) <
      items.findIdx (fun item => p item && f item = b) := by
  induction items with
  | nil => simp at ha
  | cons item items ih =>
    rw [List.findIdx_cons, List.findIdx_cons]
    by_cases hp : p item
    · rw [List.filter_cons_of_pos hp, List.map_cons] at ha h
      by_cases hb : f item = b
      · rw [hb, List.idxOf_cons_self] at h
        omega
      · by_cases hfirst : f item = a
        · simp [hp, hfirst, hfirst ▸ hb]
        · rw [List.idxOf_cons_ne _ hfirst, List.idxOf_cons_ne _ hb] at h
          have hrest := ih ((List.mem_cons.mp ha).resolve_left (Ne.symm hfirst)) (by omega)
          simpa [hfirst, hb] using hrest
    · rw [List.filter_cons_of_neg hp] at ha h
      have hrest := ih ha h
      simpa [hp] using hrest

/-- Paths that one rule forbids stand in the order of the tree. -/
theorem position_lt_of_idxOf_lt {rule : Rule} {a b : String} (ha : a ∈ snapshot.matchedBy rule)
    (h : (snapshot.matchedBy rule).idxOf a < (snapshot.matchedBy rule).idxOf b) :
    snapshot.position rule a < snapshot.position rule b := by
  unfold matchedBy at ha h
  cases hpaths : snapshot.pathsMatching rule.pattern with
  | error error => simp [hpaths] at ha
  | ok paths =>
    obtain ⟨query, hquery, rfl⟩ := exists_query_of_pathsMatching hpaths
    rw [hpaths] at ha h
    simp only [position, hquery]
    exact findIdx_lt_of_idxOf_lt ha h

/-- Among the paths with their rules, paths are ordered by the first rules that forbid them and, for
one rule, by their positions in the tree. -/
theorem lt_of_idxOf_prohibitions {a b : String}
    (h : ((snapshot.prohibitions rules).map Prod.snd).idxOf a <
      ((snapshot.prohibitions rules).map Prod.snd).idxOf b) :
    rules.findIdx (snapshot.forbids a) < rules.findIdx (snapshot.forbids b) ∨
      rules.findIdx (snapshot.forbids a) = rules.findIdx (snapshot.forbids b) ∧
        ∀ rule, rules.find? (snapshot.forbids a) = some rule →
          snapshot.position rule a < snapshot.position rule b := by
  induction rules with
  | nil => simp [prohibitions] at h
  | cons rule rules ih =>
    have hpaths : (snapshot.prohibitions (rule :: rules)).map Prod.snd =
        (if rule.negated then snapshot.matchedBy rule else []) ++
          (snapshot.prohibitions rules).map Prod.snd := by
      rw [prohibitions, List.flatMap_cons, List.map_append, prohibitions]
      split <;> simp [Function.comp_def]
    have hforbids (path : String) : snapshot.forbids path rule = true ↔
        path ∈ if rule.negated then snapshot.matchedBy rule else [] := by
      unfold forbids
      split <;> simp_all
    rw [hpaths, List.idxOf_append, List.idxOf_append] at h
    rw [List.findIdx_cons, List.findIdx_cons]
    by_cases ha : snapshot.forbids a rule
    · have hmem := (hforbids a).mp ha
      by_cases hb : snapshot.forbids b rule
      · have hnegated := (Bool.and_eq_true_iff.mp ha).1
        rw [if_pos hmem, if_pos ((hforbids b).mp hb)] at h
        rw [if_pos hnegated] at hmem h
        refine .inr ⟨by simp [ha, hb], fun first hfirst => ?_⟩
        rw [List.find?_cons_of_pos ha, Option.some.injEq] at hfirst
        exact hfirst ▸ position_lt_of_idxOf_lt hmem h
      · refine .inl ?_
        simp [ha, hb]
    · by_cases hb : snapshot.forbids b rule
      · have hmem := (hforbids b).mp hb
        rw [if_neg fun hmem => ha ((hforbids a).mpr hmem), if_pos hmem] at h
        have hlt := List.idxOf_lt_length_of_mem hmem
        omega
      · rw [if_neg fun hmem => ha ((hforbids a).mpr hmem),
          if_neg fun hmem => hb ((hforbids b).mpr hmem)] at h
        rw [List.find?_cons_of_neg ha]
        simp only [ha, hb, cond_false, Nat.add_lt_add_iff_right, Nat.add_right_cancel_iff]
        exact ih (by omega)

end Snapshot

end TreeLayout
