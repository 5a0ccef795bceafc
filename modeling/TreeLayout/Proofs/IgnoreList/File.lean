import TreeLayout.FileTree.Ignore
import TreeLayout.Proofs.Text.Lines

/-!
# Ignore lists in files

A file is read line by line from its bytes, past malformed lines, while lines that are at hand as texts are
read up to the first malformed one. Both find the same lines and the same faults, so a file gives the
list that the lines of its text give, or fails where they fail (`IgnoreList.load_agrees_ofLines`).
-/

namespace TreeLayout

open Text

namespace Text

/-- The first line of a text is the start of the text. -/
theorem isPrefix_of_head?_lines {text line : List Char} (h : (lines text).head? = some line) :
    line <+: text := by
  by_cases hfeed : '\n' ∈ text
  · obtain ⟨front, back, rfl, hfront⟩ := List.eq_append_cons_of_mem hfeed
    rw [lines_cons hfront, List.head?_cons, Option.some.injEq] at h
    rw [← h]
    exact (dropLastOf_isPrefix '\r' front).trans (List.prefix_append _ _)
  · rw [lines_of_notMem hfeed] at h
    split at h
    · cases h
    · rw [List.head?_cons, Option.some.injEq] at h
      exact h ▸ List.prefix_rfl

end Text

namespace IgnoreList

theorem decodeLine_bytes (line : List Char) : decodeLine (bytes line) = some line := by
  have hbytes : (⟨(bytes line).toArray⟩ : ByteArray) = (String.ofList line).toByteArray := by
    rw [String.toByteArray_ofList, List.utf8Encode]
    exact ByteArray.ext List.data_toByteArray.symm
  rw [decodeLine, hbytes, String.fromUTF8?, dif_pos (String.ofList line).isValidUTF8]
  exact congrArg some String.toList_ofList

/-- The ignore lines that some lines of text spell; malformed ones spell none. -/
def spelled (lines : List (List Char)) : List IgnoreLine :=
  lines.filterMap fun line => (IgnoreLine.parse line).toOption.join

/-- The faults of the malformed lines among some lines, which are numbered from `number`. -/
def malformed (number : Nat) : List (List Char) → List (Nat × Glob.Error)
  | [] => []
  | line :: rest =>
    match IgnoreLine.parse line with
    | .ok _ => malformed (number + 1) rest
    | .error error => (number, error) :: malformed (number + 1) rest

/-- Reading lines of bytes finds what the lines of text spell, and every fault. -/
theorem readLines_map_bytes {number : Nat} (hnumber : 1 ≤ number) {lines : List (List Char)}
    (hmark : number = 1 → ∀ line, lines.head? = some line → line.head? ≠ some '\ufeff') :
    readLines number (lines.map bytes) =
      (spelled lines, (malformed number lines).map fun (place, error) => (place, .glob error)) := by
  induction lines generalizing number with
  | nil => rfl
  | cons line rest ih =>
    have hrest := @ih (number + 1) (Nat.le_add_left 1 number) fun h => by omega
    have htext : (if number = 1 then line.dropWhile (· = '\ufeff') else line) = line := by
      split
      · rename_i hone
        cases line with
        | nil => rfl
        | cons c line =>
          have hc : c ≠ '\ufeff' := fun h => hmark hone _ rfl (congrArg some h)
          rw [List.dropWhile_cons_of_neg (by simpa using hc)]
      · rfl
    rw [List.map_cons, readLines, decodeLine_bytes]
    simp only [htext, hrest]
    cases hparse : IgnoreLine.parse line with
    | error error => simp [spelled, malformed, hparse, Except.toOption]
    | ok spoken => cases spoken <;> simp [spelled, malformed, hparse, Except.toOption]

/-- Reading lines of text finds what they spell, unless a line is malformed; the first one is the error. -/
theorem ofLines_eq (number : Nat) (lines : List (List Char)) :
    ofLines (lines.map String.ofList) =
      match malformed number lines with
        | [] => .ok ⟨spelled lines⟩
        | (_, error) :: _ => .error error := by
  have hrow : (lines.map String.ofList).mapM (fun line => IgnoreLine.parse line.toList) =
      match malformed number lines with
        | [] => .ok (lines.map fun line => (IgnoreLine.parse line).toOption.join)
        | (_, error) :: _ => .error error := by
    induction lines generalizing number with
    | nil => rfl
    | cons line rest ih =>
      rw [List.map_cons, List.mapM_cons, String.toList_ofList, ih (number + 1), malformed]
      cases hparse : IgnoreLine.parse line with
      | error error => rfl
      | ok spoken =>
        rw [List.map_cons, hparse]
        cases malformed (number + 1) rest <;> rfl
  rw [ofLines, hrow]
  cases malformed number lines with
  | nil =>
    refine congrArg (fun found => Except.ok (IgnoreList.mk found)) ?_
    rw [spelled, List.filterMap_map]
    rfl
  | cons => rfl

/-- The lines of a text, each as a text. -/
def linesOf (text : String) : List String := (Text.lines text.toList).map String.ofList

/-- A file gives what its lines spell, unless lines are malformed; all of them are told. -/
theorem ofFile_toUTF8 (path : String) {text : String} (hmark : text.toList.head? ≠ some '\ufeff') :
    ofFile path text.toUTF8 =
      match malformed 1 (Text.lines text.toList) with
        | [] => .ok ⟨spelled (Text.lines text.toList)⟩
        | faults => .error ⟨path, faults.map fun (place, error) => (place, .glob error)⟩ := by
  have hlines : linesBy 0x0A 0x0D (bytes text.toList) = (Text.lines text.toList).map bytes :=
    linesBy_bytes (by decide) (by decide) text.toList
  have hstart : ∀ line, (Text.lines text.toList).head? = some line → line.head? ≠ some '\ufeff' := by
    intro line hline hhead
    obtain ⟨rest, hrest⟩ := isPrefix_of_head?_lines hline
    obtain ⟨front, rfl⟩ := List.head?_eq_some_iff.mp hhead
    exact hmark (by rw [← hrest]; rfl)
  rw [ofFile, toList_toUTF8, hlines, readLines_map_bytes (Nat.le_refl 1) fun _ => hstart]
  cases malformed 1 (Text.lines text.toList) <;> rfl

/-- An ignore file is refused exactly if the lines of its text are, and the first refused line has the
fault at which these lines are given up. Otherwise both have as many lines that say something, and ignore
the same paths. -/
theorem load_agrees_ofLines {system : FileSystem} {directory text : String}
    (hfile : system.file? (.ofList (joinPath directory.toList fileName.toList)) = some text.toUTF8)
    (hmark : text.toList.head? ≠ some '\ufeff') :
    ((∃ refusal, load system directory = .error refusal) ↔
      ∃ error, ofLines (linesOf text) = .error error) ∧
    (∀ refusal error, load system directory = .error refusal → ofLines (linesOf text) = .error error →
      refusal.faults.head?.map Prod.snd = some (.glob error)) ∧
    ∀ loaded listed, load system directory = .ok loaded → ofLines (linesOf text) = .ok listed →
      ∃ list, loaded = some list ∧ list.lines.length = listed.lines.length ∧
        ∀ path, list.isIgnored path = listed.isIgnored path := by
  rw [linesOf, ofLines_eq 1]
  simp only [load, hfile, ofFile_toUTF8 _ hmark]
  cases malformed 1 (Text.lines text.toList) with
  | nil =>
    refine ⟨⟨fun h => ?_, fun h => ?_⟩, fun _ _ h => ?_, fun loaded listed hloaded hlisted => ?_⟩
    · obtain ⟨_, h⟩ := h
      cases h
    · obtain ⟨_, h⟩ := h
      cases h
    · cases h
    · cases hloaded
      cases hlisted
      exact ⟨_, rfl, rfl, fun _ => rfl⟩
  | cons first rest =>
    refine ⟨⟨fun _ => ⟨_, rfl⟩, fun _ => ⟨_, rfl⟩⟩, fun refusal error hrefusal herror => ?_,
      fun _ _ h => ?_⟩
    · cases hrefusal
      cases herror
      rfl
    · cases h

/-- Line breaks of both kinds, none at the end, and carriage returns within a line and behind the last. -/
def mixedText : String := "*.log\r\n\r\n# notes\n!a\rb.log\r\nbuild/\r"

/-- The lines of the mixed text that say something. -/
def mixedList : IgnoreList where
  lines := [⟨⟨"**/*.log", .leadingStars :: .anyRun :: ".log".toList.map .literal⟩, false, false⟩,
    ⟨⟨"**/a\rb.log", .leadingStars :: "a\rb.log".toList.map .literal⟩, true, false⟩,
    ⟨⟨"**/build", .leadingStars :: "build".toList.map .literal⟩, false, true⟩]

/-- A file of mixed line breaks ignores and re-includes what its lines do. -/
theorem load_agrees_ofLines_mixed :
    ofLines (linesOf mixedText) = .ok mixedList ∧
    ∃ list, load (FileTree.file ".gitignore" mixedText.toUTF8 .empty) "." = .ok (some list) ∧
      list.lines.length = 3 ∧ list.isIgnored "a/run.log" = .ok true ∧
      list.isIgnored "a/a\rb.log" = .ok false ∧ list.isIgnored "build/x" = .ok true := by
  have hlisted : ofLines (linesOf mixedText) = .ok mixedList := by decide +kernel
  have hagrees := @load_agrees_ofLines (FileTree.file ".gitignore" mixedText.toUTF8 .empty) "." mixedText rfl
    (by decide)
  cases hload : load (FileTree.file ".gitignore" mixedText.toUTF8 .empty) "." with
  | error refusal =>
    obtain ⟨error, herror⟩ := hagrees.1.mp ⟨refusal, hload⟩
    cases hlisted.symm.trans herror
  | ok loaded =>
    obtain ⟨list, rfl, hlength, hanswers⟩ := hagrees.2.2 loaded mixedList hload hlisted
    refine ⟨hlisted, list, rfl, hlength, ?_, ?_, ?_⟩
    · exact (hanswers "a/run.log").trans (by decide +kernel)
    · exact (hanswers "a/a\rb.log").trans (by decide +kernel)
    · exact (hanswers "build/x").trans (by decide +kernel)

end IgnoreList

end TreeLayout
