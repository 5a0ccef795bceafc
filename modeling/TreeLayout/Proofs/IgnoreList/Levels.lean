import TreeLayout.IgnoreList
import TreeLayout.Proofs.Text.Segments

/-!
# The levels of a path in an ignore list

An ignore list is asked for a path, then for the directories above it up to the root. These are the
levels of the path, numbered by their segments. The deepest level that a line speaks of decides
(`IgnoreList.isIgnored_eq_ok_iff`), so a re-inclusion below an ignored directory has its way
(`IgnoreList.isIgnored_eq_false_iff`).
-/

namespace TreeLayout

namespace Text

/-- The first segments of a path, as a path. -/
def upTo (path : List Char) (depth : Nat) : List Char := join '/' ((segments path).take depth)

theorem upTo_length (path : List Char) : upTo path (segments path).length = path := by
  rw [upTo, List.take_length]
  exact join_split '/' path

end Text

namespace IgnoreList

open Text

theorem isVacant_eq_false {segment : List Char} (h : segment ≠ [] ∧ segment ≠ ['.'])
    (earlier : List (List Char)) : isVacant segment earlier = false := by
  simp [isVacant, h.1, h.2]

/-- Where each segment adds something, the directories above a path are those of its first segments. -/
theorem ancestorsOf_of_forall {backward : List (List Char)}
    (h : ∀ segment ∈ backward, segment ≠ [] ∧ segment ≠ ['.']) :
    ancestorsOf backward = (List.range backward.length).reverse.map fun depth =>
      join '/' (backward.reverse.take depth) := by
  induction backward with
  | nil => rfl
  | cons segment earlier ih =>
    have hearlier : ∀ segment ∈ earlier, segment ≠ [] ∧ segment ≠ ['.'] :=
      fun other hother => h other (List.mem_cons_of_mem _ hother)
    have hkept : dropVacant earlier = earlier := by
      cases earlier with
      | nil => rfl
      | cons next earlier =>
        rw [dropVacant, isVacant_eq_false (hearlier next (List.mem_cons_self ..))]
        rfl
    have hdeeper : ∀ depth ∈ (List.range earlier.length).reverse,
        join '/' (earlier.reverse.take depth) =
          join '/' ((earlier.reverse ++ [segment]).take depth) := by
      intro depth hdepth
      have hle : depth ≤ earlier.reverse.length := by
        rw [List.length_reverse]
        exact Nat.le_of_lt (List.mem_range.mp (List.mem_reverse.mp hdepth))
      rw [List.take_append_of_le_length hle]
    rw [ancestorsOf, isVacant_eq_false (h segment (List.mem_cons_self ..)), if_neg (by decide),
      hkept, ih hearlier, List.map_congr_left hdeeper, List.reverse_cons, List.length_cons,
      List.range_succ, List.reverse_concat, List.map_cons,
      List.take_left' (List.length_reverse ..)]

/-- What the last line that speaks of a level of a path says: the path itself is asked for as a file,
every level above it as a directory. -/
def verdictAt? (list : IgnoreList) (path : List Char) (depth : Nat) : Option Bool :=
  list.verdict? (upTo path depth) (decide (depth < (segments path).length))

/-- Whether a level of a path decides on it with an answer: it is the deepest one that a line speaks
of. -/
structure Decides (list : IgnoreList) (path : List Char) (depth : Nat) (answer : Bool) : Prop where
  le_length : depth ≤ (segments path).length
  verdict : list.verdictAt? path depth = some answer
  silent : ∀ deeper, depth < deeper → deeper ≤ (segments path).length →
    list.verdictAt? path deeper = none

/-- The answer of a search from the last number down is that of the last one that has an answer. -/
theorem findSome?_reverse_range {α : Type} {f : Nat → Option α} {n : Nat} {a : α} :
    (List.range n).reverse.findSome? f = some a ↔
      ∃ depth < n, f depth = some a ∧ ∀ deeper, depth < deeper → deeper < n → f deeper = none := by
  induction n with
  | zero => simp
  | succ n ih =>
    rw [List.range_succ, List.reverse_concat, List.findSome?_cons]
    cases hn : f n with
    | some b =>
      constructor
      · intro h
        exact ⟨n, Nat.lt_succ_self n, hn.trans h, fun deeper hlt hle => by omega⟩
      · intro h
        obtain ⟨depth, hlt, hdepth, hnone⟩ := h
        rcases Nat.lt_or_eq_of_le (Nat.le_of_lt_succ hlt) with hbefore | rfl
        · rw [hnone n hbefore (Nat.lt_succ_self n)] at hn
          cases hn
        · exact hn.symm.trans hdepth
    | none =>
      rw [ih]
      constructor
      · intro h
        obtain ⟨depth, hlt, hdepth, hnone⟩ := h
        refine ⟨depth, Nat.lt_succ_of_lt hlt, hdepth, fun deeper hdeeper hle => ?_⟩
        rcases Nat.lt_or_eq_of_le (Nat.le_of_lt_succ hle) with hbefore | rfl
        · exact hnone deeper hdeeper hbefore
        · exact hn
      · intro h
        obtain ⟨depth, hlt, hdepth, hnone⟩ := h
        rcases Nat.lt_or_eq_of_le (Nat.le_of_lt_succ hlt) with hbefore | rfl
        · exact ⟨depth, hbefore, hdepth, fun deeper hdeeper hle =>
            hnone deeper hdeeper (Nat.lt_succ_of_lt hle)⟩
        · rw [hn] at hdepth
          cases hdepth

/-- As soon as a line speaks of some level of a path, some level decides on it, and none above that
one. -/
theorem exists_decides {list : IgnoreList} {path : List Char} {depth : Nat}
    (hdepth : depth ≤ (segments path).length)
    (hspoken : (list.verdictAt? path depth).isSome) :
    ∃ nearer answer, depth ≤ nearer ∧ list.Decides path nearer answer := by
  cases hsearch : (List.range ((segments path).length + 1)).reverse.findSome?
      (list.verdictAt? path) with
  | none =>
    have hmem : depth ∈ (List.range ((segments path).length + 1)).reverse :=
      List.mem_reverse.mpr (List.mem_range.mpr (Nat.lt_succ_of_le hdepth))
    rw [List.findSome?_eq_none_iff.mp hsearch depth hmem] at hspoken
    cases hspoken
  | some answer =>
    obtain ⟨nearer, hlt, hanswer, hsilent⟩ := findSome?_reverse_range.mp hsearch
    refine ⟨nearer, answer, ?_, Nat.le_of_lt_succ hlt, hanswer,
      fun deeper hdeeper hle => hsilent deeper hdeeper (Nat.lt_succ_of_le hle)⟩
    by_contra hbelow
    rw [hsilent depth (Nat.lt_of_not_le hbelow) (Nat.lt_succ_of_le hdepth)] at hspoken
    cases hspoken

section WellFormed

variable {path : List Char} (hformed : IsWellFormed path)

include hformed

/-- A well-formed path has an answer: that of the levels from the path up to the root. -/
theorem isIgnored_of_isWellFormed (list : IgnoreList) : list.isIgnored (.ofList path) =
    .ok (((List.range ((segments path).length + 1)).reverse.findSome?
      (list.verdictAt? path)).getD false) := by
  have hempty : [] ∉ segments path := fun hmem => (hformed [] hmem).1 rfl
  have hdot : dropDotSlash path = path := by
    refine dropDotSlash_eq_self fun hexists => ?_
    obtain ⟨rest, rfl⟩ := hexists
    exact (hformed _ (mem_segments_of_dotSlash rest)).2.1 rfl
  have habove : ancestors path = (List.range (segments path).length).reverse.map (upTo path) := by
    rw [ancestors, ancestorsOf_of_forall, List.length_reverse, List.reverse_reverse]
    · rfl
    · intro segment hsegment
      have hnamed := hformed segment (List.mem_reverse.mp hsegment)
      exact ⟨hnamed.1, hnamed.2.1⟩
  have hdirectories : (ancestors path).findSome? (list.verdict? · true) =
      (List.range (segments path).length).reverse.findSome? (list.verdictAt? path) := by
    rw [habove, List.findSome?_map, ← List.head?_filterMap, ← List.head?_filterMap]
    refine congrArg List.head? (List.filterMap_congr fun depth hdepth => ?_)
    have hlt := List.mem_range.mp (List.mem_reverse.mp hdepth)
    rw [verdictAt?, decide_eq_true hlt]
    rfl
  have hfile : list.verdictAt? path (segments path).length = list.verdict? path false := by
    rw [verdictAt?, upTo_length, decide_eq_false (Nat.lt_irrefl _)]
  have hlevels : (List.range ((segments path).length + 1)).reverse.findSome? (list.verdictAt? path) =
      (list.verdict? path false <|> (ancestors path).findSome? (list.verdict? · true)) := by
    rw [List.range_succ, List.reverse_concat, List.findSome?_cons, hfile, hdirectories]
    cases list.verdict? path false <;> rfl
  rw [isIgnored, String.toList_ofList, hlevels]
  dsimp only
  rw [hdot, if_neg (head?_of_notMem_segments hempty)]
  split
  · rename_i hlines
    have hsilent (text : List Char) (isDirectory : Bool) : list.verdict? text isDirectory = none := by
      rw [verdict?, hlines]
      rfl
    have hnone : (ancestors path).findSome? (list.verdict? · true) = none :=
      List.findSome?_eq_none_iff.mpr fun above _ => hsilent above true
    rw [hsilent, hnone]
    rfl
  · rfl

/-- The level that decides on a well-formed path has the answer. -/
theorem isIgnored_of_decides {list : IgnoreList} {depth : Nat} {answer : Bool}
    (h : list.Decides path depth answer) : list.isIgnored (.ofList path) = .ok answer := by
  have hsearch : (List.range ((segments path).length + 1)).reverse.findSome?
      (list.verdictAt? path) = some answer :=
    findSome?_reverse_range.mpr ⟨depth, Nat.lt_succ_of_le h.le_length, h.verdict,
      fun deeper hlt hle => h.silent deeper hlt (Nat.le_of_lt_succ hle)⟩
  rw [isIgnored_of_isWellFormed hformed, hsearch]
  rfl

/-- Below an ignored directory, a path is ignored unless a re-inclusion decides on it: on the path
itself or on a directory between the two. -/
theorem isIgnored_eq_false_iff {list : IgnoreList} {depth : Nat}
    (hdepth : depth < (segments path).length)
    (hignored : list.verdict? (upTo path depth) true = some true) :
    ∃ answer, list.isIgnored (.ofList path) = .ok answer ∧
      (answer = false ↔ ∃ nearer, depth < nearer ∧ list.Decides path nearer false) := by
  have hverdict : list.verdictAt? path depth = some true := by
    rw [verdictAt?, decide_eq_true hdepth, hignored]
  obtain ⟨nearer, answer, hle, hdecides⟩ := exists_decides (Nat.le_of_lt hdepth)
    (Option.isSome_iff_exists.mpr ⟨true, hverdict⟩)
  refine ⟨answer, isIgnored_of_decides hformed hdecides, ?_⟩
  constructor
  · intro hanswer
    subst hanswer
    refine ⟨nearer, Nat.lt_of_le_of_ne hle fun heq => ?_, hdecides⟩
    have hclash := hdecides.verdict
    rw [← heq, hverdict] at hclash
    cases hclash
  · intro h
    obtain ⟨other, -, hother⟩ := h
    have hsame := (isIgnored_of_decides hformed hdecides).symm.trans
      (isIgnored_of_decides hformed hother)
    exact Except.ok.inj hsame

end WellFormed

/-- A directory that is included again lies between the ignored one and the path. -/
theorem isIgnored_eq_false_directory : ∃ list, ofLines ["build/", "!x/"] = .ok list ∧
    IsWellFormed "build/x/y".toList ∧
    list.verdict? (upTo "build/x/y".toList 1) true = some true ∧
    list.isIgnored "build/x/y" = .ok false := by
  let list : IgnoreList :=
    ⟨[⟨⟨"**/build", .leadingStars :: "build".toList.map .literal⟩, false, true⟩,
      ⟨⟨"**/x", .leadingStars :: "x".toList.map .literal⟩, true, true⟩]⟩
  have hformed : IsWellFormed "build/x/y".toList := by decide
  have hignored : list.verdict? (upTo "build/x/y".toList 1) true = some true := by decide +kernel
  have hdecides : list.Decides "build/x/y".toList 2 false :=
    ⟨by decide, by decide +kernel, fun deeper hlt hle => by
      obtain rfl : deeper = 3 := Nat.le_antisymm hle hlt
      decide +kernel⟩
  refine ⟨list, by decide +kernel, hformed, hignored, ?_⟩
  obtain ⟨answer, hanswer, hiff⟩ := isIgnored_eq_false_iff hformed (by decide) hignored
  rw [hiff.mpr ⟨2, by decide, hdecides⟩] at hanswer
  exact hanswer

/-- A file that is included again lies below an ignored directory. -/
theorem exists_reincluded_below_ignored : ∃ list, ofLines ["build/", "!keep.txt"] = .ok list ∧
    IsWellFormed "build/keep.txt".toList ∧
    list.verdict? (upTo "build/keep.txt".toList 1) true = some true ∧
    list.isIgnored "build/keep.txt" = .ok false :=
  ⟨⟨[⟨⟨"**/build", .leadingStars :: "build".toList.map .literal⟩, false, true⟩,
      ⟨⟨"**/keep.txt", .leadingStars :: "keep.txt".toList.map .literal⟩, true, false⟩]⟩,
    by decide +kernel, by decide, by decide +kernel, by decide +kernel⟩

end IgnoreList

end TreeLayout
