import Mathlib.Data.List.Infix
import TreeLayout.Proofs.Text.Blanks
import TreeLayout.Rules.Parser

/-!
# What a statement says

A statement is one written expression, or two with an arrow between them, and everything else has
one of three faults. Both are described here by the ways in which the texts are put together, and
reading a text finds exactly the description that fits (`readStatement_eq_ok_iff`,
`readStatement_eq_error_iff`).
-/

namespace TreeLayout

open Text

namespace Rules

/-- What stands between the two sides of a conditional. -/
def arrow : List Char := ['=', '>']

section Arrow

/-- An arrow in two texts put together is in one of them or falls on the seam. -/
theorem arrow_infix_append {front back : List Char} :
    arrow <:+: front ++ back ↔ arrow <:+: front ∨ arrow <:+: back ∨
      (front.getLast? = some '=' ∧ back.head? = some '>') := by
  induction front with
  | nil => simp [arrow]
  | cons c front ih =>
    rw [List.cons_append, List.infix_cons_iff, List.infix_cons_iff, ih]
    cases front with
    | nil =>
      cases back with
      | nil => simp [arrow]
      | cons d back => simp [arrow, eq_comm (a := c), eq_comm (a := d), or_comm]
    | cons d front =>
      simp [arrow, or_assoc]

/-- Cutting at the arrows around an arrow. -/
theorem splitArrows_append_arrow (front back : List Char) :
    splitArrows (front ++ arrow ++ back) =
      ((splitArrows front).1,
        (splitArrows front).2 ++ (splitArrows back).1 :: (splitArrows back).2) := by
  fun_induction splitArrows front with
  | case1 => simp [arrow, splitArrows]
  | case2 rest part parts hcut ih =>
    rw [hcut] at ih
    rw [List.cons_append, List.cons_append, List.cons_append, List.cons_append, splitArrows, ih]
    rfl
  | case3 c rest hrest part parts hcut ih =>
    rw [hcut] at ih
    have hnone : ∀ back', c = '=' → rest ++ arrow ++ back = '>' :: back' → False := by
      intro back' hc hback
      cases rest with
      | nil => simp [arrow] at hback
      | cons d rest =>
        obtain ⟨rfl, -⟩ := List.cons.inj hback
        exact hrest rest hc rfl
    rw [List.cons_append, List.cons_append, splitArrows, ih]
    exact hnone

/-- A text without an arrow is one part. -/
theorem splitArrows_of_not_infix {text : List Char} (h : ¬ arrow <:+: text) :
    splitArrows text = (text, []) := by
  fun_induction splitArrows text with
  | case1 => rfl
  | case2 rest => exact absurd ⟨[], rest, rfl⟩ h
  | case3 c rest _ part parts hcut ih =>
    have hrest := ih fun hpart => h (hpart.trans (List.suffix_cons c rest).isInfix)
    rw [hcut] at hrest
    cases hrest
    rfl

/-- A text with an arrow has a first one. -/
theorem exists_of_arrow_infix {text : List Char} (h : arrow <:+: text) :
    ∃ front back, text = front ++ arrow ++ back ∧ ¬ arrow <:+: front := by
  induction text with
  | nil => simp [arrow] at h
  | cons c rest ih =>
    by_cases hstart : arrow <+: c :: rest
    · obtain ⟨back, hback⟩ := hstart
      exact ⟨[], back, hback.symm, by simp [arrow]⟩
    · obtain ⟨front, back, rfl, hfront⟩ := ih ((List.infix_cons_iff.mp h).resolve_left hstart)
      refine ⟨c :: front, back, rfl, fun hpart => ?_⟩
      rcases List.infix_cons_iff.mp hpart with hlead | hpart
      · rw [← List.cons_append, ← List.cons_append, List.append_assoc] at hstart
        exact hstart (hlead.trans (List.prefix_append _ _))
      · exact hfront hpart

/-- How many arrows a text holds: none, one, or more. -/
inductive Sides (text : List Char) : Prop where
  | one (h : ¬ arrow <:+: text)
  | two (front back : List Char) (h : text = front ++ arrow ++ back)
      (hfront : ¬ arrow <:+: front) (hback : ¬ arrow <:+: back)
  | more (front middle back : List Char) (h : text = front ++ arrow ++ middle ++ arrow ++ back)

theorem sides (text : List Char) : Sides text := by
  by_cases h : arrow <:+: text
  · obtain ⟨front, back, htext, hfront⟩ := exists_of_arrow_infix h
    by_cases hback : arrow <:+: back
    · obtain ⟨middle, last, rfl, -⟩ := exists_of_arrow_infix hback
      exact .more front middle last (by rw [htext]; simp only [List.append_assoc])
    · exact .two front back htext hfront hback
  · exact .one h

theorem splitArrows_two {front back : List Char} (hfront : ¬ arrow <:+: front)
    (hback : ¬ arrow <:+: back) : splitArrows (front ++ arrow ++ back) = (front, [back]) := by
  rw [splitArrows_append_arrow, splitArrows_of_not_infix hfront, splitArrows_of_not_infix hback]
  rfl

/-- Two arrows make three parts or more. -/
theorem splitArrows_more (front middle back : List Char) :
    ∃ first second third rest,
      splitArrows (front ++ arrow ++ middle ++ arrow ++ back) =
        (first, second :: third :: rest) := by
  rw [splitArrows_append_arrow, splitArrows_append_arrow]
  cases (splitArrows front).2 with
  | nil =>
    cases (splitArrows middle).2 with
    | nil => exact ⟨_, _, _, _, rfl⟩
    | cons => exact ⟨_, _, _, _, rfl⟩
  | cons second rest =>
    cases rest with
    | nil => exact ⟨_, _, _, _, rfl⟩
    | cons => exact ⟨_, _, _, _, rfl⟩

/-- Only the text between two others can hold an arrow where nothing of it is in those. -/
theorem arrow_infix_surround {front back : List Char} (hfront : '=' ∉ front) (hback : '>' ∉ back)
    (text : List Char) : arrow <:+: front ++ text ++ back ↔ arrow <:+: text := by
  have hnone : ¬ arrow <:+: front := fun h => hfront (h.subset (by decide))
  have hnone' : ¬ arrow <:+: back := fun h => hback (h.subset (by decide))
  have hlast : front.getLast? ≠ some '=' := fun h => hfront (List.mem_of_getLast? h)
  have hhead : back.head? ≠ some '>' := fun h => hback (List.mem_of_head? h)
  rw [arrow_infix_append, arrow_infix_append]
  simp [hnone, hnone', hlast, hhead]

end Arrow

end Rules

section Expressions

namespace Expression

/-- An expression as it is written among blanks: its pattern, behind an exclamation mark if it is
negated. -/
inductive IsWritten : Expression → List Char → Prop
  | plain (pattern : String) {front back : List Char} (hfront : IsBlankText front)
      (hback : IsBlankText back) : IsWritten ⟨pattern, false⟩ (front ++ pattern.toList ++ back)
  | negated (pattern : String) {front gap back : List Char} (hfront : IsBlankText front)
      (hgap : IsBlankText gap) (hback : IsBlankText back) :
      IsWritten ⟨pattern, true⟩ (front ++ ('!' :: gap ++ pattern.toList) ++ back)

/-- Whether a pattern can be told from the blanks, the mark and the arrow around it. -/
structure IsProper (expression : Expression) : Prop where
  ne_nil : expression.pattern.toList ≠ []
  trimmed : IsTrimmed expression.pattern.toList
  plain : expression.negated = false → expression.pattern.toList.head? ≠ some '!'
  arrow : ¬ Rules.arrow <:+: expression.pattern.toList

/-- Nothing around a pattern is part of an arrow. -/
theorem IsWritten.arrow_infix_iff {expression : Expression} {text : List Char}
    (h : expression.IsWritten text) :
    Rules.arrow <:+: text ↔ Rules.arrow <:+: expression.pattern.toList := by
  cases h with
  | plain pattern hfront hback =>
    exact Rules.arrow_infix_surround (hfront.notMem (by decide)) (hback.notMem (by decide)) _
  | @negated pattern front gap back hfront hgap hback =>
    have hequals : isBlank '=' = false := by decide
    have hmark : '=' ∉ front ++ '!' :: gap := by
      simp [hfront.notMem hequals, hgap.notMem hequals]
    have h := Rules.arrow_infix_surround hmark (hback.notMem (by decide)) pattern.toList
    simpa using h

end Expression

namespace Rules

/-- Whether a text holds no pattern: blanks, perhaps around a single exclamation mark. -/
inductive IsVoid : List Char → Prop
  | blank {text : List Char} (h : IsBlankText text) : IsVoid text
  | mark {front back : List Char} (hfront : IsBlankText front) (hback : IsBlankText back) :
      IsVoid (front ++ '!' :: back)

theorem parseExpression_of_mark {text rest : List Char} (h : trim text = '!' :: rest) :
    parseExpression text =
      if trim rest = [] then none else some ⟨.ofList (trim rest), true⟩ := by
  rw [parseExpression, h]
  rfl

theorem parseExpression_of_plain {text : List Char} (h : (trim text).head? ≠ some '!') :
    parseExpression text =
      if trim text = [] then none else some ⟨.ofList (trim text), false⟩ := by
  rw [parseExpression]
  split
  rename_i hmatch
  split at hmatch
  · rename_i heq
    simp [heq] at h
  · cases hmatch
    rfl

/-- Exactly the texts that hold no pattern are no expressions. -/
theorem parseExpression_eq_none_iff {text : List Char} :
    parseExpression text = none ↔ IsVoid text := by
  obtain ⟨front, back, hfront, hback, htext⟩ := exists_blanks_around text
  constructor
  · intro h
    by_cases hmark : (trim text).head? = some '!'
    · obtain ⟨rest, hrest⟩ := List.head?_eq_some_iff.mp hmark
      rw [parseExpression_of_mark hrest] at h
      have hblank : IsBlankText rest := trim_eq_nil_iff.mp (by simpa using h)
      rw [htext, hrest, List.append_assoc, List.cons_append]
      exact .mark hfront (hblank.append hback)
    · rw [parseExpression_of_plain hmark] at h
      exact .blank (trim_eq_nil_iff.mp (by simpa using h))
  · intro h
    cases h with
    | blank hblank =>
      have htrim := trim_eq_nil_iff.mpr hblank
      rw [parseExpression_of_plain (by simp [htrim]), if_pos htrim]
    | @mark start finish hstart hfinish =>
      have hblank : isBlank '!' = false := by decide
      have hmark : IsTrimmed ['!'] :=
        ⟨fun c hc => Option.some.inj hc ▸ hblank, fun c hc => Option.some.inj hc ▸ hblank⟩
      have htrim := hmark.trim_surround hstart hfinish
      rw [List.append_assoc, List.singleton_append] at htrim
      rw [parseExpression_of_mark htrim]
      rfl

/-- Exactly the written forms of expressions with a proper pattern are expressions. -/
theorem parseExpression_eq_some_iff {text : List Char} (harrow : ¬ arrow <:+: text)
    {expression : Expression} :
    parseExpression text = some expression ↔ expression.IsWritten text ∧ expression.IsProper := by
  obtain ⟨front, back, hfront, hback, htext⟩ := exists_blanks_around text
  constructor
  · intro h
    by_cases hmark : (trim text).head? = some '!'
    · obtain ⟨rest, hrest⟩ := List.head?_eq_some_iff.mp hmark
      rw [parseExpression_of_mark hrest] at h
      split at h
      · cases h
      · rename_i hne
        cases h
        obtain ⟨gap, finish, hgap, hfinish, hpattern⟩ := exists_blanks_around rest
        have hfull : text = front ++ ('!' :: gap ++ trim rest) ++ (finish ++ back) := by
          rw [htext, hrest]
          conv_lhs => rw [hpattern]
          simp
        have hwritten : Expression.IsWritten ⟨.ofList (trim rest), true⟩ text := by
          have h := Expression.IsWritten.negated (.ofList (trim rest)) hfront hgap
            (hfinish.append hback)
          rwa [String.toList_ofList, ← hfull] at h
        refine ⟨hwritten, ?_, ?_, by simp, fun hpart => ?_⟩
        · simpa using hne
        · simpa using isTrimmed_trim rest
        · exact harrow (hwritten.arrow_infix_iff.mpr hpart)
    · rw [parseExpression_of_plain hmark] at h
      split at h
      · cases h
      · rename_i hne
        cases h
        have hwritten : Expression.IsWritten ⟨.ofList (trim text), false⟩ text := by
          have h := Expression.IsWritten.plain (.ofList (trim text)) hfront hback
          rwa [String.toList_ofList, ← htext] at h
        refine ⟨hwritten, ?_, ?_, ?_, fun hpart => ?_⟩
        · simpa using hne
        · simpa using isTrimmed_trim text
        · simpa using hmark
        · exact harrow (hwritten.arrow_infix_iff.mpr hpart)
  · intro h
    obtain ⟨hwritten, hproper⟩ := h
    cases hwritten with
    | plain pattern hstart hfinish =>
      have htrim := hproper.trimmed.trim_surround hstart hfinish
      rw [parseExpression_of_plain (by rw [htrim]; exact hproper.plain rfl), htrim,
        if_neg hproper.ne_nil, String.ofList_toList]
    | @negated pattern start gap finish hstart hgap hfinish =>
      have hmark : IsTrimmed ('!' :: gap ++ pattern.toList) := by
        refine ⟨fun c hc => ?_, fun c hc => hproper.trimmed.finish c ?_⟩
        · cases hc
          decide
        · rwa [List.getLast?_append_of_ne_nil _ hproper.ne_nil] at hc
      have htrim : trim (start ++ ('!' :: gap ++ pattern.toList) ++ finish) =
          '!' :: (gap ++ pattern.toList) := hmark.trim_surround hstart hfinish
      have hpattern : trim (gap ++ pattern.toList) = pattern.toList := by
        simpa using hproper.trimmed.trim_surround hgap isBlankText_nil
      rw [parseExpression_of_mark htrim, hpattern, if_neg hproper.ne_nil, String.ofList_toList]

end Rules

end Expressions

namespace Rules

section Statements

/-- A statement that is one expression, or two with an arrow between them. -/
inductive IsStatement : Expression → Option Expression → List Char → Prop
  | alone {antecedent : Expression} {text : List Char} (h : antecedent.IsWritten text) :
      IsStatement antecedent none text
  | conditional {antecedent consequence : Expression} {front back : List Char}
      (hfront : antecedent.IsWritten front) (hback : consequence.IsWritten back) :
      IsStatement antecedent (some consequence) (front ++ arrow ++ back)

/-- What is wrong with a statement: several arrows; else no pattern before the arrow, or in the whole
statement if there is none; else no pattern after the arrow. -/
inductive HasFault : List Char → Fault → Prop
  | nested (front middle back : List Char) :
      HasFault (front ++ arrow ++ middle ++ arrow ++ back) .nestedConditional
  | void {text : List Char} (harrow : ¬ arrow <:+: text) (h : IsVoid text) :
      HasFault text .missingAntecedent
  | antecedent {front back : List Char} (hfront : ¬ arrow <:+: front) (hback : ¬ arrow <:+: back)
      (h : IsVoid front) : HasFault (front ++ arrow ++ back) .missingAntecedent
  | consequence {front back : List Char} (hfront : ¬ arrow <:+: front) (hback : ¬ arrow <:+: back)
      (hpattern : ¬ IsVoid front) (h : IsVoid back) :
      HasFault (front ++ arrow ++ back) .missingConsequence

/-- The two sides of a statement, or what is wrong with it. -/
def readStatement (text : List Char) : Except Fault (Expression × Option Expression) :=
  match splitArrows text with
  | (front, []) =>
    match parseExpression front with
    | none => .error .missingAntecedent
    | some antecedent => .ok (antecedent, none)
  | (front, [back]) =>
    match parseExpression front, parseExpression back with
    | none, _ => .error .missingAntecedent
    | some _, none => .error .missingConsequence
    | some antecedent, some consequence => .ok (antecedent, some consequence)
  | _ => .error .nestedConditional

/-- A line is read as its statement; its place only labels the result. -/
theorem parseLine_eq (file : String) (line : SourceLine) :
    parseLine file line = match readStatement line.text.toList with
      | .ok (antecedent, consequence) => .ok ⟨antecedent, consequence, ⟨file, line.number⟩⟩
      | .error fault => .error (.line ⟨file, line.number⟩ fault) := by
  rw [parseLine, readStatement]
  rcases splitArrows line.text.toList with ⟨front, _ | ⟨back, _ | ⟨last, rest⟩⟩⟩
  · cases hfront : parseExpression front with
    | none => simp only [hfront, bind, Except.bind]
    | some antecedent => simp only [hfront, bind, Except.bind, pure, Except.pure]
  · cases hfront : parseExpression front with
    | none => simp only [hfront, bind, Except.bind]
    | some antecedent =>
      cases hback : parseExpression back with
      | none => simp only [hfront, hback, bind, Except.bind]
      | some consequence => simp only [hfront, hback, bind, Except.bind, pure, Except.pure]
  · rfl

theorem readStatement_one {text : List Char} (h : ¬ arrow <:+: text) :
    readStatement text = match parseExpression text with
      | none => .error .missingAntecedent
      | some antecedent => .ok (antecedent, none) := by
  rw [readStatement, splitArrows_of_not_infix h]

theorem readStatement_two {front back : List Char} (hfront : ¬ arrow <:+: front)
    (hback : ¬ arrow <:+: back) : readStatement (front ++ arrow ++ back) =
      match parseExpression front, parseExpression back with
      | none, _ => .error .missingAntecedent
      | some _, none => .error .missingConsequence
      | some antecedent, some consequence => .ok (antecedent, some consequence) := by
  rw [readStatement, splitArrows_two hfront hback]

theorem readStatement_more (front middle back : List Char) :
    readStatement (front ++ arrow ++ middle ++ arrow ++ back) = .error .nestedConditional := by
  obtain ⟨first, second, third, rest, hcut⟩ := splitArrows_more front middle back
  rw [readStatement, hcut]

/-- Exactly the written statements with proper patterns are read. -/
theorem readStatement_eq_ok_iff {text : List Char} {antecedent : Expression}
    {consequence : Option Expression} :
    readStatement text = .ok (antecedent, consequence) ↔
      IsStatement antecedent consequence text ∧ antecedent.IsProper ∧
        ∀ expression ∈ consequence, expression.IsProper := by
  constructor
  · intro h
    cases sides text with
    | one harrow =>
      rw [readStatement_one harrow] at h
      cases hleft : parseExpression text with
      | none => simp [hleft] at h
      | some expression =>
        obtain ⟨rfl, rfl⟩ : expression = antecedent ∧ none = consequence := by
          simpa [hleft] using h
        obtain ⟨hwritten, hproper⟩ := (parseExpression_eq_some_iff harrow).mp hleft
        exact ⟨.alone hwritten, hproper, by simp⟩
    | two front back htext hfront hback =>
      rw [htext, readStatement_two hfront hback] at h
      cases hleft : parseExpression front with
      | none => simp [hleft] at h
      | some expression =>
        cases hright : parseExpression back with
        | none => simp [hleft, hright] at h
        | some other =>
          obtain ⟨rfl, rfl⟩ : expression = antecedent ∧ some other = consequence := by
            simpa [hleft, hright] using h
          obtain ⟨hwritten, hproper⟩ := (parseExpression_eq_some_iff hfront).mp hleft
          obtain ⟨hwritten', hproper'⟩ := (parseExpression_eq_some_iff hback).mp hright
          exact ⟨htext ▸ .conditional hwritten hwritten', hproper, by simpa using hproper'⟩
    | more front middle back htext =>
      rw [htext, readStatement_more] at h
      cases h
  · intro h
    obtain ⟨hstatement, hantecedent, hconsequence⟩ := h
    cases hstatement with
    | alone hwritten =>
      have harrow := hwritten.arrow_infix_iff.not.mpr hantecedent.arrow
      have hparse := (parseExpression_eq_some_iff harrow).mpr ⟨hwritten, hantecedent⟩
      simp only [readStatement_one harrow, hparse]
    | @conditional other front back hfront hback =>
      have hother := hconsequence other rfl
      have hleft := hfront.arrow_infix_iff.not.mpr hantecedent.arrow
      have hright := hback.arrow_infix_iff.not.mpr hother.arrow
      have hparse := (parseExpression_eq_some_iff hleft).mpr ⟨hfront, hantecedent⟩
      have hparse' := (parseExpression_eq_some_iff hright).mpr ⟨hback, hother⟩
      simp only [readStatement_two hleft hright, hparse, hparse']

/-- Everything else has exactly the first of three faults. -/
theorem readStatement_eq_error_iff {text : List Char} {fault : Fault} :
    readStatement text = .error fault ↔ HasFault text fault := by
  constructor
  · intro h
    cases sides text with
    | one harrow =>
      rw [readStatement_one harrow] at h
      cases hleft : parseExpression text with
      | none =>
        obtain rfl : Fault.missingAntecedent = fault := by simpa [hleft] using h
        exact .void harrow (parseExpression_eq_none_iff.mp hleft)
      | some expression => simp [hleft] at h
    | two front back htext hfront hback =>
      rw [htext, readStatement_two hfront hback] at h
      rw [htext]
      cases hleft : parseExpression front with
      | none =>
        obtain rfl : Fault.missingAntecedent = fault := by simpa [hleft] using h
        exact .antecedent hfront hback (parseExpression_eq_none_iff.mp hleft)
      | some expression =>
        have hpattern : ¬ IsVoid front := fun hvoid => by
          simp [parseExpression_eq_none_iff.mpr hvoid] at hleft
        cases hright : parseExpression back with
        | none =>
          obtain rfl : Fault.missingConsequence = fault := by simpa [hleft, hright] using h
          exact .consequence hfront hback hpattern (parseExpression_eq_none_iff.mp hright)
        | some other => simp [hleft, hright] at h
    | more front middle back htext =>
      rw [htext, readStatement_more] at h
      cases h
      exact htext ▸ .nested front middle back
  · intro h
    cases h with
    | nested front middle back => exact readStatement_more front middle back
    | void harrow hvoid =>
      simp only [readStatement_one harrow, parseExpression_eq_none_iff.mpr hvoid]
    | antecedent hfront hback hvoid =>
      simp only [readStatement_two hfront hback, parseExpression_eq_none_iff.mpr hvoid]
    | @consequence front back hfront hback hpattern hvoid =>
      obtain ⟨expression, hexpression⟩ : ∃ expression, parseExpression front = some expression :=
        Option.ne_none_iff_exists'.mp fun hnone => hpattern (parseExpression_eq_none_iff.mp hnone)
      simp only [readStatement_two hfront hback, hexpression,
        parseExpression_eq_none_iff.mpr hvoid]

theorem parseExpression_surround {front back : List Char} (hfront : IsBlankText front)
    (hback : IsBlankText back) (text : List Char) :
    parseExpression (front ++ text ++ back) = parseExpression text := by
  simp only [parseExpression, trim_surround hfront hback]

/-- Blanks around a statement mean nothing. -/
theorem readStatement_surround {front back : List Char} (hfront : IsBlankText front)
    (hback : IsBlankText back) (text : List Char) :
    readStatement (front ++ text ++ back) = readStatement text := by
  have hequals : '=' ∉ front := hfront.notMem (by decide)
  have hgreater : '>' ∉ back := hback.notMem (by decide)
  have hstart (left : List Char) : parseExpression (front ++ left) = parseExpression left := by
    simpa using parseExpression_surround hfront isBlankText_nil left
  have hfinish (right : List Char) : parseExpression (right ++ back) = parseExpression right := by
    simpa using parseExpression_surround isBlankText_nil hback right
  cases sides text with
  | one h =>
    rw [readStatement_one ((arrow_infix_surround hequals hgreater text).not.mpr h),
      readStatement_one h, parseExpression_surround hfront hback]
  | two left right htext hleft hright =>
    have hleft' : ¬ arrow <:+: front ++ left := by
      simpa using (arrow_infix_surround hequals List.not_mem_nil left).not.mpr hleft
    have hright' : ¬ arrow <:+: right ++ back := by
      simpa using (arrow_infix_surround List.not_mem_nil hgreater right).not.mpr hright
    have hcut : front ++ text ++ back = (front ++ left) ++ arrow ++ (right ++ back) := by
      rw [htext]
      simp only [List.append_assoc]
    rw [hcut, htext, readStatement_two hleft' hright', readStatement_two hleft hright, hstart,
      hfinish]
  | more left middle right htext =>
    have hcut : front ++ text ++ back =
        (front ++ left) ++ arrow ++ middle ++ arrow ++ (right ++ back) := by
      rw [htext]
      simp only [List.append_assoc]
    rw [hcut, htext, readStatement_more, readStatement_more]

/-- A line of a text is read without its comment. -/
theorem parseLine_statement (file : String) (line : List Char) (number : UInt32) :
    parseLine file ⟨.ofList (statement line), number⟩ =
      match readStatement (before '#' line) with
      | .ok (antecedent, consequence) => .ok ⟨antecedent, consequence, ⟨file, number⟩⟩
      | .error fault => .error (.line ⟨file, number⟩ fault) := by
  obtain ⟨front, back, hfront, hback, htext⟩ := exists_blanks_around (before '#' line)
  rw [parseLine_eq, String.toList_ofList, htext, readStatement_surround hfront hback, statement]

end Statements

end Rules

end TreeLayout
