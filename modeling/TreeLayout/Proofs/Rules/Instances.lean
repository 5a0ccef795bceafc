import TreeLayout.Proofs.Rules.Capture
import TreeLayout.Proofs.Rules.Stages

/-!
# Expanding once is enough

Where no path of the tree holds a `%`, no value does, so filling a value in leaves no placeholder behind.
The expanded directives then have none in their antecedents, and expanding them again asks nothing and
changes nothing (`expand_eq_flatMap_instances`).
-/

namespace TreeLayout.Rules

open Text

/-- A value without a `%` leaves none behind. -/
theorem notMem_substitute {value : List Char} (h : '%' ∉ value) (pattern : String) :
    '%' ∉ (substitute value pattern).toList := by
  rw [substitute, String.toList_ofList, List.mem_flatMap]
  intro hexists
  obtain ⟨c, -, hc⟩ := hexists
  split at hc
  · exact h hc
  · rename_i hne
    exact hne (List.mem_singleton.mp hc).symm

/-- What the placeholder stands for in a path is a part of one of its segments. -/
theorem Template.exists_segment_of_capture? {template : Template} {path value : List Char}
    (h : template.capture? path = some value) : ∃ segment ∈ segments path, value ⊆ segment := by
  obtain ⟨front, back, hpath, -⟩ := Template.capture?_eq_some_iff_locates.mp h
  refine ⟨template.name value, hpath ▸ List.mem_append_right _ List.mem_cons_self, fun c hc => ?_⟩
  exact List.mem_append_left _ (List.mem_append_right _ hc)

section Instances

variable {matcher : Matcher} {directive rule : Directive}

theorem placeholders_eq_zero_iff :
    directive.placeholders = 0 ↔ '%' ∉ directive.antecedent.pattern.toList := List.count_eq_zero

theorem instances_of_plain (h : '%' ∉ directive.antecedent.pattern.toList) :
    instances matcher directive = [directive] := if_pos (placeholders_eq_zero_iff.mpr h)

/-- The instances of a directive with a placeholder hold what the placeholder stands for in the matched
paths. -/
theorem mem_instances_iff (hplaceholder : '%' ∈ directive.antecedent.pattern.toList) :
    rule ∈ instances matcher directive ↔
      ∃ paths, matcher.paths directive.wildcard = .ok paths ∧
        ∃ path ∈ paths, ∃ value, directive.capture? path = some value ∧ rule = directive.fill value := by
  have hsome : directive.placeholders ≠ 0 := fun hzero => placeholders_eq_zero_iff.mp hzero hplaceholder
  rw [instances, if_neg hsome]
  cases matcher.paths directive.wildcard with
  | error error => simp
  | ok paths =>
    constructor
    · intro h
      obtain ⟨value, hvalue, rfl⟩ := List.mem_map.mp h
      obtain ⟨path, hpath, hcapture⟩ := List.mem_filterMap.mp hvalue
      exact ⟨paths, rfl, path, hpath, value, hcapture, rfl⟩
    · intro h
      obtain ⟨_, hpaths, path, hpath, value, hcapture, rfl⟩ := h
      cases hpaths
      exact List.mem_map_of_mem (List.mem_filterMap.mpr ⟨path, hpath, hcapture⟩)

/-- What a placeholder stands for is a part of a segment of the path. -/
theorem exists_segment_of_capture? {path : String} {value : List Char}
    (h : directive.capture? path = some value) :
    ∃ segment ∈ segments path.toList, value ⊆ segment := by
  obtain ⟨template, -, hcapture⟩ := Option.bind_eq_some_iff.mp h
  exact Template.exists_segment_of_capture? hcapture

/-- Directives without placeholders are expanded to themselves, whatever the matcher. -/
theorem expand_of_plain {rules : List Directive}
    (h : ∀ rule ∈ rules, '%' ∉ rule.antecedent.pattern.toList) :
    expand matcher rules = ⟨[], .ok rules⟩ := by
  have hnone (rule : Directive) (hrule : rule ∈ rules) : rule.placeholders = 0 :=
    placeholders_eq_zero_iff.mpr (h rule hrule)
  have hquery : rules.filterMap expansionQuery? = [] := by
    refine List.filterMap_eq_nil_iff.mpr fun rule hrule => if_neg fun hone => ?_
    exact Nat.zero_ne_one ((hnone rule hrule).symm.trans hone.1)
  have hinstances : rules.flatMap (instances matcher) = rules := by
    rw [List.flatMap_congr fun rule hrule => instances_of_plain (h rule hrule)]
    exact List.flatMap_singleton' rules
  rw [expand_of_forall, hquery, hinstances]
  intro rule hrule error herror
  have hzero := hnone rule hrule
  cases herror <;> omega

variable (hanswers : ∀ pattern paths, matcher.paths pattern = .ok paths →
  ∀ path ∈ paths, '%' ∉ path.toList)

include hanswers

/-- No placeholder is left in the instances of a directive that has one. -/
theorem notMem_of_mem_instances (hplaceholder : '%' ∈ directive.antecedent.pattern.toList)
    (h : rule ∈ instances matcher directive) :
    '%' ∉ rule.antecedent.pattern.toList ∧
      ∀ consequence, rule.consequence = some consequence → '%' ∉ consequence.pattern.toList := by
  obtain ⟨paths, hpaths, path, hpath, value, hcapture, rfl⟩ := (mem_instances_iff hplaceholder).mp h
  obtain ⟨segment, hsegment, hsubset⟩ := exists_segment_of_capture? hcapture
  have hvalue : '%' ∉ value := fun hmem =>
    hanswers _ paths hpaths path hpath (subset_of_mem_split hsegment (hsubset hmem))
  refine ⟨notMem_substitute hvalue _, fun consequence hconsequence => ?_⟩
  obtain ⟨unfilled, -, rfl⟩ := Option.map_eq_some_iff.mp hconsequence
  exact notMem_substitute hvalue _

/-- No placeholder is left in the antecedents of instances. -/
theorem notMem_antecedent_of_mem_instances (h : rule ∈ instances matcher directive) :
    '%' ∉ rule.antecedent.pattern.toList := by
  by_cases hplaceholder : '%' ∈ directive.antecedent.pattern.toList
  · exact (notMem_of_mem_instances hanswers hplaceholder h).1
  · rw [instances_of_plain hplaceholder, List.mem_singleton] at h
    rwa [h]

end Instances

/-- Where no answer holds a `%`, expanded directives have no placeholders in their antecedents, nor in the
consequences of those that had one before. They are the instances of the directives, in the order of the
directives, and expanding them again asks nothing and changes nothing. -/
theorem expand_eq_flatMap_instances {matcher : Matcher} {directives rules : List Directive}
    (hanswers : ∀ pattern paths, matcher.paths pattern = .ok paths → ∀ path ∈ paths, '%' ∉ path.toList)
    (h : (expand matcher directives).outcome = .ok rules) :
    rules = directives.flatMap (instances matcher) ∧
    (∀ directive ∈ directives,
      (expand matcher [directive]).outcome = .ok (instances matcher directive) ∧
      ('%' ∉ directive.antecedent.pattern.toList → instances matcher directive = [directive]) ∧
      ('%' ∈ directive.antecedent.pattern.toList → ∀ rule ∈ instances matcher directive,
        ∀ consequence, rule.consequence = some consequence → '%' ∉ consequence.pattern.toList)) ∧
    (∀ rule ∈ rules, '%' ∉ rule.antecedent.pattern.toList) ∧
    ∀ other : Matcher, expand other rules = ⟨[], .ok rules⟩ := by
  obtain ⟨hall, rfl⟩ := outcome_expand_eq_ok_iff.mp h
  have hplain : ∀ rule ∈ directives.flatMap (instances matcher),
      '%' ∉ rule.antecedent.pattern.toList := by
    intro rule hrule
    obtain ⟨directive, -, hmem⟩ := List.mem_flatMap.mp hrule
    exact notMem_antecedent_of_mem_instances hanswers hmem
  refine ⟨rfl, fun directive hdirective => ⟨?_, instances_of_plain, ?_⟩, hplain,
    fun other => expand_of_plain hplain⟩
  · refine outcome_expand_eq_ok_iff.mpr ⟨fun single hsingle => ?_, by simp⟩
    rw [List.mem_singleton.mp hsingle]
    exact hall directive hdirective
  · intro hplaceholder rule hrule
    exact (notMem_of_mem_instances hanswers hplaceholder hrule).2

/-- A path that does not fit yields nothing, and a consequence keeps its `%` where the antecedent has
none. -/
theorem expand_eq_flatMap_instances_unfit :
    ∃ rules, (expand ⟨fun _ => .ok ["lib/a", "b", "lib/c/x"], fun _ => .ok true⟩
        [⟨⟨"lib/%", false⟩, some ⟨"%/%", true⟩, ⟨"rules", 1⟩⟩,
          ⟨⟨"b", true⟩, some ⟨"50%", false⟩, ⟨"rules", 2⟩⟩]).outcome = .ok rules ∧
      rules = [⟨⟨"lib/a", false⟩, some ⟨"a/a", true⟩, ⟨"rules", 1⟩⟩,
        ⟨⟨"lib/c", false⟩, some ⟨"c/c", true⟩, ⟨"rules", 1⟩⟩,
        ⟨⟨"b", true⟩, some ⟨"50%", false⟩, ⟨"rules", 2⟩⟩] ∧
      ∀ other : Matcher, expand other rules = ⟨[], .ok rules⟩ := by
  have hanswers (_ : String) (paths : List String)
      (h : (.ok ["lib/a", "b", "lib/c/x"] : Except Glob.Error _) = .ok paths) :
      ∀ path ∈ paths, '%' ∉ path.toList := by
    cases h
    decide
  have h : (expand ⟨fun _ => .ok ["lib/a", "b", "lib/c/x"], fun _ => .ok true⟩
      [⟨⟨"lib/%", false⟩, some ⟨"%/%", true⟩, ⟨"rules", 1⟩⟩,
        ⟨⟨"b", true⟩, some ⟨"50%", false⟩, ⟨"rules", 2⟩⟩]).outcome =
      .ok [⟨⟨"lib/a", false⟩, some ⟨"a/a", true⟩, ⟨"rules", 1⟩⟩,
        ⟨⟨"lib/c", false⟩, some ⟨"c/c", true⟩, ⟨"rules", 1⟩⟩,
        ⟨⟨"b", true⟩, some ⟨"50%", false⟩, ⟨"rules", 2⟩⟩] := by decide +kernel
  exact ⟨_, h, rfl, (expand_eq_flatMap_instances hanswers h).2.2.2⟩

end TreeLayout.Rules
