import TreeLayout.Proofs.Rules.Template

/-!
# Capturing undoes filling in

A template looks at one segment of a path (`Template.Locates`): the one with as many segments before it as
the placeholder's segment has in the pattern, or, behind a recursive wildcard, with as many after it. A
value is captured exactly if that segment is the value between the texts around the placeholder. Filling in
a value without slashes leaves all segments in their places, so that very value is captured again
(`exists_template_undoing_substitute`).
-/

namespace TreeLayout.Rules

open Text

/-- A place in a list cuts the list in two. -/
theorem getElem?_eq_some_iff_exists {α : Type} {items : List α} {place : Nat} {item : α} :
    items[place]? = some item ↔
      ∃ front back, items = front ++ item :: back ∧ front.length = place := by
  constructor
  · intro h
    obtain ⟨hplace, hitem⟩ := List.getElem?_eq_some_iff.mp h
    refine ⟨items.take place, items.drop (place + 1), ?_, List.length_take_of_le hplace.le⟩
    rw [← hitem, List.getElem_cons_drop, List.take_append_drop]
  · intro h
    obtain ⟨front, back, hitems, hplace⟩ := h
    rw [hitems, ← hplace, List.getElem?_append_right (Nat.le_refl _), Nat.sub_self]
    rfl

namespace Anchor

variable {pieces : List (List Char)} {segment : List Char}

theorem segment?_fromStart_eq_some_iff {index : Nat} :
    (fromStart index).segment? pieces = some segment ↔
      ∃ front back, pieces = front ++ segment :: back ∧ front.length = index :=
  getElem?_eq_some_iff_exists

/-- A segment's distance from the end is one more than the number of segments after it. -/
theorem segment?_fromEnd_eq_some_iff {count : Nat} :
    (fromEnd (count + 1)).segment? pieces = some segment ↔
      ∃ front back, pieces = front ++ segment :: back ∧ back.length = count := by
  rw [segment?]
  constructor
  · intro h
    split at h
    · cases h
    · obtain ⟨front, back, hpieces, hplace⟩ := getElem?_eq_some_iff_exists.mp h
      have hlength := congrArg List.length hpieces
      rw [List.length_append, List.length_cons] at hlength
      exact ⟨front, back, hpieces, by omega⟩
  · intro h
    obtain ⟨front, back, hpieces, hcount⟩ := h
    have hlength := congrArg List.length hpieces
    rw [List.length_append, List.length_cons] at hlength
    rw [if_neg (by omega)]
    exact getElem?_eq_some_iff_exists.mpr ⟨front, back, hpieces, by omega⟩

end Anchor

namespace Template

variable {template : Template} {pieces : List (List Char)} {segment path value : List Char}

/-- Whether a segment stands among those of a path where the placeholder's segment stands in a template: with
as many before it, or with as many after it if a recursive wildcard stands before the placeholder. -/
def Locates (template : Template) (pieces : List (List Char)) (segment : List Char) : Prop :=
  ∃ front back, pieces = front ++ segment :: back ∧
    (['*', '*'] ∉ template.before → front.length = template.before.length) ∧
    (['*', '*'] ∈ template.before → back.length = template.after.length)

/-- The anchor of a template finds the segment that stands in the template's place. -/
theorem segment?_anchor_eq_some_iff :
    template.anchor.segment? pieces = some segment ↔ template.Locates pieces segment := by
  rw [anchor, Locates]
  by_cases hstars : ['*', '*'] ∈ template.before
  · simp only [hstars, if_true, not_true_eq_false, false_implies, true_implies, true_and]
    exact Anchor.segment?_fromEnd_eq_some_iff
  · simp only [hstars, if_false, not_false_eq_true, false_implies, true_implies, and_true]
    exact Anchor.segment?_fromStart_eq_some_iff

/-- A value is captured exactly if it stands between the texts around the placeholder. -/
theorem capture?_eq_some_iff_locates :
    template.capture? path = some value ↔
      template.Locates (segments path) (template.name value) :=
  capture?_eq_some.trans segment?_anchor_eq_some_iff

/-- A template with a value filled in has its own segments, and the filled one in its place. -/
theorem IsCut.segments_fill (h : template.IsCut) (hvalue : '/' ∉ value) :
    segments (template.fill value) = template.before ++ template.name value :: template.after := by
  apply split_join
  · exact List.append_ne_nil_of_right_ne_nil _ (List.cons_ne_nil _ _)
  · intro piece hpiece
    rcases List.mem_append.mp hpiece with hbefore | hrest
    · exact h.before piece hbefore
    · rcases List.mem_cons.mp hrest with rfl | hafter
      · simp [h.head, h.tail, hvalue]
      · exact h.after piece hafter

/-- The filled segment stands in its template's place. -/
theorem IsCut.locates_fill (h : template.IsCut) (hvalue : '/' ∉ value) :
    template.Locates (segments (template.fill value)) (template.name value) :=
  ⟨template.before, template.after, h.segments_fill hvalue, fun _ => rfl, fun _ => rfl⟩

end Template

/-- Capturing undoes filling in. The template of a pattern with a single placeholder holds the segments of
the pattern without a leading `./`. From that pattern with a value in the place of the placeholder it
captures the value, as long as the value holds no slash, and with a `*` there the pattern is its wildcard.
From any path it captures a value exactly if the segment in the placeholder's place is that value between
the texts around the placeholder. -/
theorem exists_template_undoing_substitute {pattern : String}
    (hone : pattern.toList.count '%' = 1) :
    ∃ template, Template.ofPattern? pattern.toList = some template ∧
      segments (dropDotSlash pattern.toList) =
        template.before ++ (template.head ++ '%' :: template.tail) :: template.after ∧
      (∀ value, '/' ∉ value →
        template.capture? (substitute value (.ofList (dropDotSlash pattern.toList))).toList =
          some value) ∧
      template.wildcard = (substitute ['*'] (.ofList (dropDotSlash pattern.toList))).toList ∧
      ∀ path value, template.capture? path = some value ↔
        template.Locates (segments path) (template.head ++ value ++ template.tail) := by
  obtain ⟨template, htemplate⟩ := Template.exists_template (List.count_pos_iff.mp (hone ▸ Nat.one_pos))
  obtain ⟨htext, hcut⟩ := Template.exists_of_ofPattern? htemplate
  have hfill (value : List Char) :
      (substitute value (.ofList (dropDotSlash pattern.toList))).toList = template.fill value := by
    rw [substitute_dropDotSlash htemplate hone, String.toList_ofList]
  refine ⟨template, htemplate, ?_, ?_, (hfill ['*']).symm, ?_⟩
  · rw [htext, hcut.segments_fill (by decide), Template.name, List.append_assoc]
    rfl
  · intro value hvalue
    rw [hfill]
    exact Template.capture?_eq_some_iff_locates.mpr (hcut.locates_fill hvalue)
  · intro path value
    exact Template.capture?_eq_some_iff_locates

/-- A value that repeats the texts around the placeholder and holds a `%`, between two recursive wildcards.
The letter around the placeholder is there twice, so a single one is no match. -/
theorem exists_template_undoing_substitute_repeated :
    "./**/a%a/**/".toList.count '%' = 1 ∧
    ∃ template, Template.ofPattern? "./**/a%a/**/".toList = some template ∧
      template.capture? "**/aa%aa/**/".toList = some ['a', '%', 'a'] ∧
      template.wildcard = "**/a*a/**/".toList ∧
      template.capture? "x/aa/y/".toList = some [] ∧
      template.capture? "x/a/y/".toList = none := by
  have hone : "./**/a%a/**/".toList.count '%' = 1 := by decide
  obtain ⟨template, htemplate, -, hfilled, hwildcard, hcapture⟩ :=
    exists_template_undoing_substitute hone
  have hparts : Template.ofPattern? "./**/a%a/**/".toList =
      some ⟨[['*', '*']], ['a'], ['a'], [['*', '*'], []]⟩ := by decide +kernel
  obtain rfl := Option.some.inj (hparts.symm.trans htemplate)
  refine ⟨hone, _, htemplate, hfilled ['a', '%', 'a'] (by decide), hwildcard, ?_, by decide +kernel⟩
  exact (hcapture _ _).mpr ⟨[['x']], [['y'], []], by decide +kernel, fun _ => rfl, fun _ => rfl⟩

end TreeLayout.Rules
