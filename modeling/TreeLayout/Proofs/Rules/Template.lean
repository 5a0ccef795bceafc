import Mathlib.Data.List.TakeWhile
import TreeLayout.Proofs.Text.Segments
import TreeLayout.Rules.Expansion

/-!
# Cutting patterns at their placeholder

A pattern with one placeholder is the text before the placeholder's segment, that segment, and the
text after it. Filling in a value changes only the segment, both in the pattern as it is written and
in its template, and taking the segment's ends away from a name gives the value back.
-/

namespace TreeLayout.Rules

open Text

/-- Taking a start away is the inverse of putting it before. -/
theorem afterHead?_eq_some {head text rest : List Char} :
    afterHead? head text = some rest ↔ text = head ++ rest := by
  induction head generalizing text with
  | nil => simp [afterHead?]
  | cons c head ih =>
    cases text with
    | nil => simp [afterHead?]
    | cons d text =>
      by_cases h : c = d
      · simp [afterHead?, h, ih]
      · simp [afterHead?, h, Ne.symm h]

/-- Taking an end away is the inverse of putting it behind. -/
theorem beforeTail?_eq_some {tail text value : List Char} :
    beforeTail? tail text = some value ↔ text = value ++ tail := by
  simp only [beforeTail?, Option.map_eq_some_iff, afterHead?_eq_some]
  constructor
  · intro hexists
    obtain ⟨rest, htext, rfl⟩ := hexists
    rw [← List.reverse_reverse text, htext]
    simp
  · intro heq
    subst heq
    exact ⟨value.reverse, by simp, by simp⟩

namespace Template

/-- The text before the placeholder's segment. -/
def lead (template : Template) : List Char := template.before.flatMap (· ++ ['/'])

/-- The text after the placeholder's segment. -/
def trail (template : Template) : List Char := template.after.flatMap ('/' :: ·)

/-- The placeholder's segment with a text in the place of the placeholder. -/
def name (template : Template) (value : List Char) : List Char :=
  template.head ++ value ++ template.tail

/-- A template whose segments hold no slash, as those of every pattern. -/
structure IsCut (template : Template) : Prop where
  before : ∀ segment ∈ template.before, '/' ∉ segment
  head : '/' ∉ template.head
  tail : '/' ∉ template.tail
  after : ∀ segment ∈ template.after, '/' ∉ segment

theorem fill_eq (template : Template) (value : List Char) :
    template.fill value = template.lead ++ template.name value ++ template.trail :=
  join_append_cons _ _ _

theorem lead_boundary (template : Template) :
    template.lead = [] ∨ template.lead.getLast? = some '/' := getLast?_flatMap_separator _

theorem trail_boundary (template : Template) :
    template.trail = [] ∨ template.trail.head? = some '/' := head?_flatMap_separator _

/-- The text before the placeholder's segment has a slash for each of its segments. -/
theorem IsCut.count_lead {template : Template} (h : template.IsCut) :
    template.lead.count '/' = template.before.length := count_flatMap_append_separator h.before

/-- The text after the placeholder's segment has a slash for each of its segments. -/
theorem IsCut.count_trail {template : Template} (h : template.IsCut) :
    template.trail.count '/' = template.after.length := count_flatMap_separator h.after

/-- What a captured value and a segment have to do with each other. -/
theorem capture?_eq_some {template : Template} {path value : List Char} :
    template.capture? path = some value ↔
      template.anchor.segment? (segments path) = some (template.name value) := by
  unfold capture?
  simp only [bind, Option.bind_eq_some_iff, afterHead?_eq_some, beforeTail?_eq_some, name]
  constructor
  · intro hexists
    obtain ⟨segment, hsegment, rest, rfl, rfl⟩ := hexists
    rw [hsegment, List.append_assoc]
  · intro h
    exact ⟨_, h, value ++ template.tail, by simp, rfl⟩

section Cut

/-- A text with a placeholder is cut at its first one. -/
theorem eq_before_append {segment : List Char} (h : '%' ∈ segment) :
    segment = Text.before '%' segment ++ ['%'] ++ (segment.dropWhile (· ≠ '%')).drop 1 := by
  obtain ⟨front, back, rfl, hfront⟩ := List.eq_append_cons_of_mem h
  have hplain : ∀ c ∈ front, decide (c ≠ '%') = true := by
    intro c hc
    rw [decide_eq_true_iff]
    intro heq
    subst heq
    exact hfront hc
  rw [Text.before, List.takeWhile_append_of_pos hplain, List.dropWhile_append_of_pos hplain]
  simp

/-- A template is its pattern, cut into segments. -/
theorem exists_of_ofPattern? {pattern : List Char} {template : Template}
    (h : ofPattern? pattern = some template) :
    dropDotSlash pattern = template.fill ['%'] ∧ template.IsCut := by
  unfold ofPattern? at h
  simp only at h
  split at h
  · cases h
  · rename_i segment after hdrop
    cases h
    have hpieces : segments (dropDotSlash pattern) =
        (segments (dropDotSlash pattern)).takeWhile (fun other => !other.contains '%') ++
          segment :: after := by
      rw [← hdrop, List.takeWhile_append_dropWhile]
    have hslash (other : List Char) (hother : other ∈ segments (dropDotSlash pattern)) :
        '/' ∉ other := notMem_of_mem_split hother
    have hholds : '%' ∈ segment := by
      have hhead := List.head?_dropWhile_not
        (fun other : List Char => !other.contains '%') (segments (dropDotSlash pattern))
      rw [hdrop] at hhead
      simpa using hhead
    have hsegment : '/' ∉ segment :=
      hslash segment (hpieces ▸ List.mem_append_right _ List.mem_cons_self)
    refine ⟨?_, fun other hother => ?_, fun hhead => ?_, fun htail => ?_, fun other hother => ?_⟩
    · rw [fill, ← eq_before_append hholds, ← hpieces]
      exact (join_split '/' _).symm
    · exact hslash other (hpieces ▸ List.mem_append_left _ hother)
    · apply hsegment
      rw [eq_before_append hholds]
      exact List.mem_append_left _ (List.mem_append_left _ hhead)
    · apply hsegment
      rw [eq_before_append hholds]
      exact List.mem_append_right _ htail
    · exact hslash other (hpieces ▸ List.mem_append_right _ (List.mem_cons_of_mem _ hother))

/-- A pattern with a placeholder has a template. -/
theorem exists_template {pattern : List Char} (h : '%' ∈ pattern) :
    ∃ template, ofPattern? pattern = some template := by
  have hmem : '%' ∈ dropDotSlash pattern := by
    unfold dropDotSlash
    split
    · simpa using h
    · exact h
  obtain ⟨segment, hsegment, hholds⟩ := exists_mem_split hmem (by decide : '%' ≠ '/')
  cases htemplate : ofPattern? pattern with
  | some template => exact ⟨template, rfl⟩
  | none =>
    unfold ofPattern? at htemplate
    simp only at htemplate
    split at htemplate
    · rename_i hdrop
      have hplain := List.dropWhile_eq_nil_iff.mp hdrop segment hsegment
      simp [hholds] at hplain
    · cases htemplate

end Cut

end Template

section Substitute

/-- Only placeholders are replaced. -/
theorem flatMap_of_notMem {text : List Char} (h : '%' ∉ text) (value : List Char) :
    text.flatMap (fun c => if c = '%' then value else [c]) = text := by
  induction text with
  | nil => rfl
  | cons c text ih =>
    obtain ⟨hc, htext⟩ := not_or.mp (List.mem_cons.not.mp h)
    rw [List.flatMap_cons, ih htext, if_neg (Ne.symm hc), List.singleton_append]

/-- A pattern with a single placeholder is cut at it. -/
theorem exists_split_of_count {pattern : String} (h : pattern.toList.count '%' = 1) :
    ∃ front back, pattern.toList = front ++ '%' :: back ∧ '%' ∉ front ∧ '%' ∉ back := by
  have hmem : '%' ∈ pattern.toList := List.count_pos_iff.mp (h ▸ Nat.one_pos)
  obtain ⟨front, back, hpattern⟩ := List.append_of_mem hmem
  rw [hpattern, List.count_append, List.count_cons_self] at h
  exact ⟨front, back, hpattern, List.count_eq_zero.mp (by omega), List.count_eq_zero.mp (by omega)⟩

/-- Filling in a single placeholder leaves its two sides as they are. -/
theorem toList_substitute {pattern : String} {front back : List Char}
    (hpattern : pattern.toList = front ++ '%' :: back) (hfront : '%' ∉ front) (hback : '%' ∉ back)
    (value : List Char) :
    (substitute value pattern).toList = front ++ value ++ back := by
  rw [substitute, String.toList_ofList, hpattern, List.flatMap_append, List.flatMap_cons,
    flatMap_of_notMem hfront, flatMap_of_notMem hback, if_pos rfl, List.append_assoc]

/-- Filling in the text of a template with a single placeholder fills in the template. -/
theorem Template.flatMap_fill {template : Template} (hcount : (template.fill ['%']).count '%' = 1)
    (value : List Char) :
    (template.fill ['%']).flatMap (fun c => if c = '%' then value else [c]) =
      template.fill value := by
  rw [Template.fill_eq, Template.name] at hcount
  simp only [List.count_append, List.count_singleton_self] at hcount
  have hlead : '%' ∉ template.lead := List.count_eq_zero.mp (by omega)
  have hhead : '%' ∉ template.head := List.count_eq_zero.mp (by omega)
  have htail : '%' ∉ template.tail := List.count_eq_zero.mp (by omega)
  have htrail : '%' ∉ template.trail := List.count_eq_zero.mp (by omega)
  rw [Template.fill_eq, Template.fill_eq, Template.name, Template.name]
  simp only [List.flatMap_append, flatMap_of_notMem hlead, flatMap_of_notMem hhead,
    flatMap_of_notMem htail, flatMap_of_notMem htrail, List.flatMap_singleton, if_true]

/-- Only a leading `./` is dropped. -/
theorem exists_start (pattern : List Char) :
    ∃ start, (start = [] ∨ start = ['.', '/']) ∧ pattern = start ++ dropDotSlash pattern := by
  unfold dropDotSlash
  split
  · rename_i rest heq
    exact ⟨['.', '/'], .inr rfl, by simp⟩
  · exact ⟨[], .inl rfl, rfl⟩

theorem count_dropDotSlash (pattern : List Char) :
    (dropDotSlash pattern).count '%' = pattern.count '%' := by
  obtain ⟨start, hstart, hpattern⟩ := exists_start pattern
  have hnone : start.count '%' = 0 := by rcases hstart with rfl | rfl <;> rfl
  conv_rhs => rw [hpattern, List.count_append, hnone, Nat.zero_add]

/-- Filling in a pattern without its leading `./` fills in its template. -/
theorem substitute_dropDotSlash {pattern : String} {template : Template}
    (h : Template.ofPattern? pattern.toList = some template)
    (hcount : pattern.toList.count '%' = 1) (value : List Char) :
    substitute value (.ofList (dropDotSlash pattern.toList)) = .ofList (template.fill value) := by
  obtain ⟨htext, -⟩ := Template.exists_of_ofPattern? h
  rw [← count_dropDotSlash, htext] at hcount
  rw [substitute, String.toList_ofList, htext, Template.flatMap_fill hcount]

/-- Filling in the pattern as it is written fills in its template, behind a leading `./` where the
pattern has one. -/
theorem exists_substitute {pattern : String} {template : Template}
    (h : Template.ofPattern? pattern.toList = some template)
    (hcount : pattern.toList.count '%' = 1) (value : List Char) :
    ∃ start, (start = [] ∨ start = ['.', '/']) ∧
      substitute value pattern = .ofList (start ++ template.fill value) := by
  obtain ⟨htext, -⟩ := Template.exists_of_ofPattern? h
  obtain ⟨start, hstart, hpattern⟩ := exists_start pattern.toList
  refine ⟨start, hstart, ?_⟩
  have hnone : '%' ∉ start := by rcases hstart with rfl | rfl <;> decide
  rw [← count_dropDotSlash, htext] at hcount
  rw [substitute, hpattern, htext, List.flatMap_append, flatMap_of_notMem hnone,
    Template.flatMap_fill hcount]

end Substitute

end TreeLayout.Rules
