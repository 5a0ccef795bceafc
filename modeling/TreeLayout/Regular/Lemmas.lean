import TreeLayout.Regular.Basic

/-!
# The matcher accepts the described words

What follows a first byte is described by the partial derivatives of an expression; the matcher
keeps the set of those that remain possible. The laws of the composed expressions stand here as
well.
-/

namespace TreeLayout.Regular

@[simp] theorem matches_empty {w : List UInt8} : Matches .empty w ↔ w = [] :=
  ⟨fun h => by cases h; rfl, fun h => h ▸ .empty⟩

@[simp] theorem matches_byte {set : ByteSet} {w : List UInt8} :
    Matches (.byte set) w ↔ ∃ b, set.contains b = true ∧ w = [b] :=
  ⟨fun h => by cases h with | byte hb => exact ⟨_, hb, rfl⟩, fun ⟨_, hb, hw⟩ => hw ▸ .byte hb⟩

@[simp] theorem matches_seq {r s : Regular} {w : List UInt8} :
    Matches (.seq r s) w ↔ ∃ u v, Matches r u ∧ Matches s v ∧ w = u ++ v :=
  ⟨fun h => by cases h with | seq hu hv => exact ⟨_, _, hu, hv, rfl⟩,
    fun ⟨_, _, hu, hv, hw⟩ => hw ▸ .seq hu hv⟩

@[simp] theorem matches_alt {r s : Regular} {w : List UInt8} :
    Matches (.alt r s) w ↔ Matches r w ∨ Matches s w :=
  ⟨fun h => by cases h with | left h => exact .inl h | right h => exact .inr h,
    fun h => h.elim .left .right⟩

/-- The empty word is described exactly by the nullable expressions. -/
theorem nullable_iff (r : Regular) : r.nullable = true ↔ Matches r [] := by
  induction r with
  | empty => simp [nullable]
  | byte => simp [nullable]
  | seq r s hr hs =>
    simp only [nullable, Bool.and_eq_true, hr, hs, matches_seq]
    constructor
    · exact fun ⟨h, k⟩ => ⟨[], [], h, k, rfl⟩
    · rintro ⟨u, v, hu, hv, huv⟩
      obtain ⟨rfl, rfl⟩ := List.append_eq_nil_iff.mp huv.symm
      exact ⟨hu, hv⟩
  | alt r s hr hs => simp [nullable, hr, hs]
  | star r => simp [nullable, Matches.done]

@[simp] theorem matches_andThen {r s : Regular} {w : List UInt8} :
    Matches (r.andThen s) w ↔ Matches (.seq r s) w := by
  cases r <;> simp [andThen]

/-- A nonempty word of a repetition starts with a nonempty word of what is repeated. -/
theorem matches_star_cons {r : Regular} {b : UInt8} {w : List UInt8} :
    Matches (.star r) (b :: w) ↔ ∃ u v, Matches r (b :: u) ∧ Matches (.star r) v ∧ w = u ++ v := by
  constructor
  · intro h
    generalize hs : Regular.star r = s at h
    generalize hw : b :: w = word at h
    induction h with
    | empty | byte | seq | left | right => cases hs
    | done => cases hw
    | @more q u v hu hv _ ih =>
      cases hs
      cases u with
      | nil => exact ih rfl hw
      | cons a u =>
        obtain ⟨rfl, rfl⟩ := List.cons.inj hw
        exact ⟨u, v, hu, hv, rfl⟩
  · rintro ⟨u, v, hu, hv, rfl⟩
    exact .more hu hv

/-- The expressions after a byte describe exactly the words that may follow it. -/
theorem exists_mem_after {b : UInt8} {w : List UInt8} (r : Regular) :
    (∃ q ∈ after b r, Matches q w) ↔ Matches r (b :: w) := by
  induction r generalizing w with
  | empty => simp [after]
  | byte set =>
    by_cases h : set.contains b
    · simp only [after, h, if_true, List.mem_singleton, exists_eq_left, matches_empty, matches_byte]
      exact ⟨fun hw => ⟨b, h, hw ▸ rfl⟩, fun ⟨_, _, hw⟩ => (List.cons.inj hw).2⟩
    · simp only [after, h, matches_byte]
      grind
  | seq r s hr hs =>
    have hfirst : (∃ q ∈ (after b r).map (·.andThen s), Matches q w) ↔
        ∃ u v, Matches r (b :: u) ∧ Matches s v ∧ w = u ++ v := by
      simp only [List.mem_map]
      constructor
      · rintro ⟨_, ⟨q, hq, rfl⟩, hw⟩
        obtain ⟨u, v, hu, hv, rfl⟩ := matches_seq.mp (matches_andThen.mp hw)
        exact ⟨u, v, hr.mp ⟨q, hq, hu⟩, hv, rfl⟩
      · rintro ⟨u, v, hu, hv, rfl⟩
        obtain ⟨q, hq, hqu⟩ := hr.mpr hu
        exact ⟨_, ⟨q, hq, rfl⟩, matches_andThen.mpr (.seq hqu hv)⟩
    have hwhole : Matches (.seq r s) (b :: w) ↔
        (∃ u v, Matches r (b :: u) ∧ Matches s v ∧ w = u ++ v) ∨
          (Matches r [] ∧ Matches s (b :: w)) := by
      rw [matches_seq]
      constructor
      · rintro ⟨u, v, hu, hv, huv⟩
        cases u with
        | nil => exact .inr ⟨hu, by simpa [huv] using hv⟩
        | cons a u =>
          obtain ⟨rfl, rfl⟩ := List.cons.inj huv
          exact .inl ⟨u, v, hu, hv, rfl⟩
      · rintro (⟨u, v, hu, hv, rfl⟩ | ⟨hu, hv⟩)
        · exact ⟨b :: u, v, hu, hv, rfl⟩
        · exact ⟨[], b :: w, hu, hv, rfl⟩
    rw [hwhole, ← hfirst, ← nullable_iff]
    by_cases hn : r.nullable
    · simp only [after, hn, if_true, List.mem_append, or_and_right, exists_or, hs, true_and]
    · simp [after, hn]
  | alt r s hr hs =>
    simp only [after, List.mem_append, or_and_right, exists_or, hr, hs, matches_alt]
  | star r hr =>
    rw [matches_star_cons]
    simp only [after, List.mem_map]
    constructor
    · rintro ⟨_, ⟨q, hq, rfl⟩, hw⟩
      obtain ⟨u, v, hu, hv, rfl⟩ := matches_seq.mp (matches_andThen.mp hw)
      exact ⟨u, v, hr.mp ⟨q, hq, hu⟩, hv, rfl⟩
    · rintro ⟨u, v, hu, hv, rfl⟩
      obtain ⟨q, hq, hqu⟩ := hr.mpr hu
      exact ⟨_, ⟨q, hq, rfl⟩, matches_andThen.mpr (.seq hqu hv)⟩

private theorem any_nullable_foldl_step (states : List Regular) (w : List UInt8) :
    (w.foldl step states).any nullable = true ↔ ∃ r ∈ states, Matches r w := by
  induction w generalizing states with
  | nil => simp [nullable_iff]
  | cons b w ih =>
    simp only [List.foldl_cons, ih, step, List.mem_eraseDups, List.mem_flatMap]
    constructor
    · rintro ⟨q, ⟨r, hr, hq⟩, hw⟩
      exact ⟨r, hr, (exists_mem_after r).mp ⟨q, hq, hw⟩⟩
    · rintro ⟨r, hr, hw⟩
      obtain ⟨q, hq, hqw⟩ := (exists_mem_after r).mpr hw
      exact ⟨q, ⟨r, hr, hq⟩, hqw⟩

/-- The matcher accepts exactly the words that an expression describes. -/
theorem accepts_iff (r : Regular) (w : List UInt8) : r.accepts w = true ↔ Matches r w := by
  rw [accepts, any_nullable_foldl_step]; simp

/-- A concatenation describes the words of its parts, put together. -/
@[simp] theorem matches_concat_cons {r : Regular} {rest : List Regular} {w : List UInt8} :
    Matches (concat (r :: rest)) w ↔
      ∃ u v, Matches r u ∧ Matches (concat rest) v ∧ w = u ++ v := by
  cases rest with
  | nil => simp [concat]
  | cons s rest => simp [concat]

/-- A literal describes one word. -/
@[simp] theorem matches_literal {word w : List UInt8} : Matches (literal word) w ↔ w = word := by
  unfold literal
  induction word generalizing w with
  | nil => simp [concat]
  | cons b word ih => simp [ih]

/-- Every word is described by `anything`. -/
@[simp] theorem matches_anything (w : List UInt8) : Matches anything w := by
  induction w with
  | nil => exact .done
  | cons b w ih => exact .more (u := [b]) (.byte (ByteSet.contains_all b)) ih

end TreeLayout.Regular
