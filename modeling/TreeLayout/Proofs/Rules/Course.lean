import TreeLayout.Proofs.Rules.Grammar
import TreeLayout.Proofs.Rules.Stages

/-!
# The course of a compilation

Three stages can fail: reading the lines, expanding the directives and resolving the expanded ones.
Each stage takes all its items in order and ends at its first failure, and no stage begins before the
one ahead of it has ended well. `Course` states which queries are issued on each of the four courses
that a compilation can take (`compile_eq_iff_course`).
-/

namespace TreeLayout.Rules

open Text

section Lines

/-- A line that says something, but not a directive. -/
structure LineFails (line : List Char) (fault : Fault) : Prop where
  said : ¬ IsBlankText (before '#' line)
  fault : HasFault (before '#' line) fault

/-- A first line fails before the lines after it. -/
theorem parse_cons_eq_error_iff {file : String} {count : Nat} {line : List Char}
    {lines : List (List Char)} {error : Error} :
    parse file (sourceLinesFrom count (line :: lines)) = .error error ↔
      (∃ fault, LineFails line fault ∧ error = .line ⟨file, .ofNat (count + 1)⟩ fault) ∨
      ((∀ fault, ¬ LineFails line fault) ∧
        parse file (sourceLinesFrom (count + 1) lines) = .error error) := by
  by_cases hblank : IsBlankText (before '#' line)
  · have hnone (fault : Fault) : ¬ LineFails line fault := fun h => h.said hblank
    simp [parse_of_blank file count hblank, hnone]
  · have hfails (fault : Fault) :
        LineFails line fault ↔ readStatement (before '#' line) = .error fault := by
      rw [readStatement_eq_error_iff]
      exact ⟨fun h => h.fault, fun h => ⟨hblank, h⟩⟩
    simp only [sourceLinesFrom, statement_eq_nil_iff.not.mpr hblank, if_false, parse,
      List.mapM_cons, parseLine_statement, hfails]
    cases readStatement (before '#' line) with
    | error fault => simp [bind, Except.bind, eq_comm]
    | ok sides =>
      cases (sourceLinesFrom (count + 1) lines).mapM (parseLine file) <;>
        simp [bind, Except.bind, pure, Except.pure]

/-- Lines are read up to the first one that fails. -/
theorem parse_eq_error_iff {file : String} {count : Nat} {lines : List (List Char)}
    {error : Error} : parse file (sourceLinesFrom count lines) = .error error ↔
      ∃ front line fault, IsFirst LineFails lines front line fault ∧
        error = .line ⟨file, .ofNat (count + front.length + 1)⟩ fault := by
  induction lines generalizing count with
  | nil =>
    constructor
    · intro h
      cases h
    · intro h
      obtain ⟨front, line, fault, ⟨⟨back, hcut⟩, -, -⟩, -⟩ := h
      simp at hcut
  | cons first lines ih =>
    have hnumber (front : List (List Char)) :
        count + (first :: front).length + 1 = count + 1 + front.length + 1 := by
      rw [List.length_cons]
      omega
    rw [parse_cons_eq_error_iff, ih]
    constructor
    · intro h
      rcases h with ⟨fault, hfails, rfl⟩ | ⟨hnone, front, line, fault, hrest, rfl⟩
      · exact ⟨[], first, fault, isFirst_cons_iff.mpr (.inl ⟨rfl, rfl, hfails⟩), rfl⟩
      · exact ⟨first :: front, line, fault,
          isFirst_cons_iff.mpr (.inr ⟨front, rfl, hnone, hrest⟩), by rw [hnumber]⟩
    · intro h
      obtain ⟨front, line, fault, h, rfl⟩ := h
      rcases isFirst_cons_iff.mp h with ⟨rfl, rfl, hfails⟩ | ⟨rest, rfl, hnone, hrest⟩
      · exact .inl ⟨fault, hfails, rfl⟩
      · exact .inr ⟨hnone, rest, line, fault, hrest, by rw [hnumber]⟩

end Lines

section Course

/-- The course of a compilation, with its queries and its end: a line fails; or all lines are read,
and a directive fails to be expanded; or all directives are expanded, and one fails to be resolved; or
all are resolved. -/
inductive Course (file text : String) (matcher : Matcher) : Inquiry Error (List Rule) → Prop
  | malformed {front : List (List Char)} {line : List Char} {fault : Fault} {number : UInt32}
      (hfirst : IsFirst LineFails (lines text.toList) front line fault)
      (hnumber : number.toNat = front.length + 1) :
      Course file text matcher ⟨[], .error (.line ⟨file, number⟩ fault)⟩
  | unexpanded {directives front : List Directive} {directive : Directive} {error : Error}
      (hread : IsLayout file 0 directives text.toList)
      (hcanonical : ∀ directive ∈ directives, directive.IsCanonical)
      (hfirst : IsFirst (ExpansionFails matcher) directives front directive error) :
      Course file text matcher
        ⟨(front ++ [directive]).filterMap expansionQuery?, .error error⟩
  | unresolved {directives front : List Directive} {directive : Directive} {error : Error}
      (hread : IsLayout file 0 directives text.toList)
      (hcanonical : ∀ directive ∈ directives, directive.IsCanonical)
      (hexpand : ∀ directive ∈ directives, ∀ error, ¬ ExpansionFails matcher directive error)
      (hfirst : IsFirst (ResolutionFails matcher) (directives.flatMap (instances matcher)) front
        directive error) :
      Course file text matcher ⟨directives.filterMap expansionQuery? ++
        (front ++ [directive]).filterMap existenceQuery?, .error error⟩
  | compiled {directives : List Directive} (hread : IsLayout file 0 directives text.toList)
      (hcanonical : ∀ directive ∈ directives, directive.IsCanonical)
      (hexpand : ∀ directive ∈ directives, ∀ error, ¬ ExpansionFails matcher directive error)
      (hresolve : ∀ directive ∈ directives.flatMap (instances matcher), ∀ error,
        ¬ ResolutionFails matcher directive error) :
      Course file text matcher ⟨directives.filterMap expansionQuery? ++
        (directives.flatMap (instances matcher)).filterMap existenceQuery?,
        .ok ((directives.flatMap (instances matcher)).filterMap (ruleOf? matcher))⟩

variable {file text : String} {matcher : Matcher}

/-- On each course, the compilation issues its queries and ends with its end. -/
theorem Course.compile_eq {result : Inquiry Error (List Rule)}
    (h : Course file text matcher result) : compile file text matcher = result := by
  cases h with
  | @malformed front line fault number hfirst hnumber =>
    refine compile_of_parse_eq_error (parse_eq_error_iff.mpr ⟨front, line, fault, hfirst, ?_⟩)
    rw [Nat.zero_add, ← hnumber, UInt32.ofNat_toNat]
  | unexpanded hread hcanonical hfirst =>
    rw [compile_of_parse_eq_ok (parse_of_isLayout hread hcanonical), expand_of_isFirst hfirst]
    rfl
  | unresolved hread hcanonical hexpand hfirst =>
    rw [compile_of_parse_eq_ok (parse_of_isLayout hread hcanonical), expand_of_forall hexpand,
      Inquiry.bind_ok, resolve_of_isFirst hfirst]
  | compiled hread hcanonical hexpand hresolve =>
    rw [compile_of_parse_eq_ok (parse_of_isLayout hread hcanonical), expand_of_forall hexpand,
      Inquiry.bind_ok, resolve_of_forall hresolve]

/-- Every compilation takes one of the courses. -/
theorem exists_course (h : (lines text.toList).length < UInt32.size) (file : String)
    (matcher : Matcher) : ∃ result, Course file text matcher result := by
  cases hparse : parse file (sourceLines text) with
  | error error =>
    obtain ⟨front, line, fault, hfirst, -⟩ := parse_eq_error_iff.mp hparse
    obtain ⟨back, hback⟩ := hfirst.cut
    have hplace : front.length + 1 ≤ (lines text.toList).length := by
      rw [hback, List.length_append, List.length_cons]
      omega
    have hnumber : (UInt32.ofNat (front.length + 1)).toNat = front.length + 1 :=
      UInt32.toNat_ofNat_of_lt' (show front.length + 1 < UInt32.size by omega)
    exact ⟨_, .malformed hfirst hnumber⟩
  | ok directives =>
    -- All lines are read, so the first failure, if any, is in one of the two later stages.
    obtain ⟨hread, hcanonical⟩ := isLayout_of_parse (by omega) hparse
    rcases exists_isFirst_or_forall (ExpansionFails matcher) directives with
      ⟨front, directive, error, hfirst⟩ | hexpand
    · exact ⟨_, .unexpanded hread hcanonical hfirst⟩
    · rcases exists_isFirst_or_forall (ResolutionFails matcher)
          (directives.flatMap (instances matcher)) with
        ⟨front, directive, error, hfirst⟩ | hresolve
      · exact ⟨_, .unresolved hread hcanonical hexpand hfirst⟩
      · exact ⟨_, .compiled hread hcanonical hexpand hresolve⟩

/-- The queries and the end of a compilation are those of its course: lines before directives, and
expansion before resolution, each up to its first failure. -/
theorem compile_eq_iff_course (h : (lines text.toList).length < UInt32.size)
    {result : Inquiry Error (List Rule)} :
    compile file text matcher = result ↔ Course file text matcher result := by
  constructor
  · intro hresult
    obtain ⟨other, hcourse⟩ := exists_course h file matcher
    rwa [← hcourse.compile_eq, hresult] at hcourse
  · intro hcourse
    exact hcourse.compile_eq

/-- A tree with two directories, asked by a text whose last line is no glob. -/
theorem course_of_invalid_glob :
    (lines "# docs\r\n%/ => %/README\nLICENSE\n\n![ => x # y\n".toList).length < UInt32.size ∧
    Course "rules" "# docs\r\n%/ => %/README\nLICENSE\n\n![ => x # y\n"
      ⟨fun _ => .ok ["a/", "b/"],
        fun pattern => if pattern = "[" then .error ⟨"[", .unclosedClass⟩ else .ok true⟩
      ⟨[.paths "*/", .existence "a/", .existence "b/", .existence "["],
        .error (.query ⟨"rules", 5⟩ ⟨"[", .unclosedClass⟩)⟩ := by
  have hlines : (lines "# docs\r\n%/ => %/README\nLICENSE\n\n![ => x # y\n".toList).length <
      UInt32.size := by decide +kernel
  exact ⟨hlines, (compile_eq_iff_course hlines).mp rfl⟩

end Course

end TreeLayout.Rules
