import TreeLayout.Proofs.Inquiry
import TreeLayout.Proofs.Rules.Lines
import TreeLayout.Proofs.Rules.Statement

/-!
# The grammar of rules texts

A rules text is a row of lines, each of which says nothing or is one written directive, with a
comment perhaps. Parsing finds exactly the canonical directives that a text lays out in this way
(`parse_eq_ok_iff_isLayout`), so directives that have been read can be written down and read again.
-/

namespace TreeLayout

open Text

/-- Whether an expression can be told from everything that may stand around it in a rules text. -/
structure Expression.IsCanonical (expression : Expression) : Prop extends expression.IsProper where
  comment : '#' ∉ expression.pattern.toList
  line : '\n' ∉ expression.pattern.toList

namespace Expression.IsWritten

variable {expression : Expression} {text : List Char}

/-- Apart from the pattern of a written expression, there are only blanks and a mark. -/
theorem mem_iff (h : expression.IsWritten text) {c : Char} (hblank : isBlank c = false)
    (hmark : c ≠ '!') : c ∈ text ↔ c ∈ expression.pattern.toList := by
  cases h with
  | plain pattern hfront hback => simp [hfront.notMem hblank, hback.notMem hblank]
  | negated pattern hfront hgap hback =>
    simp [hfront.notMem hblank, hgap.notMem hblank, hback.notMem hblank, hmark]

theorem subset (h : expression.IsWritten text) : expression.pattern.toList ⊆ text := by
  intro c hc
  cases h with
  | plain pattern hfront hback => simp [hc]
  | negated pattern hfront hgap hback => simp [hc]

end Expression.IsWritten

/-- Whether both sides of a directive are canonical. -/
structure Directive.IsCanonical (directive : Directive) : Prop where
  antecedent : directive.antecedent.IsCanonical
  consequence : ∀ expression ∈ directive.consequence, expression.IsCanonical

namespace Rules

/-- A comment, or nothing. -/
inductive IsComment : List Char → Prop
  | none : IsComment []
  | words (text : List Char) : IsComment ('#' :: text)

/-- What ends a line before the rest of the text; the last line may end without a mark. -/
inductive IsEnding : List Char → List Char → Prop
  | feed (rest : List Char) : IsEnding ['\n'] rest
  | returnFeed (rest : List Char) : IsEnding ['\r', '\n'] rest
  | none : IsEnding [] []

/-- A text that lays out some directives, one on a line, behind a number of earlier lines. -/
inductive IsLayout (file : String) : Nat → List Directive → List Char → Prop
  | finished (count : Nat) : IsLayout file count [] []
  | idle {count : Nat} {directives : List Directive} {gap comment ending rest : List Char}
      (hgap : IsBlankText gap) (hcomment : IsComment comment) (hline : '\n' ∉ gap ++ comment)
      (hending : IsEnding ending rest) (hrest : IsLayout file (count + 1) directives rest) :
      IsLayout file count directives (gap ++ comment ++ ending ++ rest)
  | directive {count : Nat} {directive : Directive} {directives : List Directive}
      {said comment ending rest : List Char}
      (hsaid : IsStatement directive.antecedent directive.consequence said)
      (hfile : directive.location.file = file)
      (hnumber : directive.location.line.toNat = count + 1)
      (hcomment : IsComment comment) (hline : '\n' ∉ said ++ comment)
      (hending : IsEnding ending rest) (hrest : IsLayout file (count + 1) directives rest) :
      IsLayout file count (directive :: directives) (said ++ comment ++ ending ++ rest)

section Line

/-- Every line is what it says, followed by a comment or nothing. -/
theorem exists_comment (line : List Char) :
    ∃ comment, IsComment comment ∧ line = before '#' line ++ comment := by
  by_cases h : '#' ∈ line
  · obtain ⟨said, words, rfl, hsaid⟩ := List.eq_append_cons_of_mem h
    exact ⟨'#' :: words, .words words, by rw [before_append_cons hsaid]⟩
  · exact ⟨[], .none, by rw [before_of_notMem h, List.append_nil]⟩

/-- A comment is cut off. -/
theorem before_append_comment {said comment : List Char} (hsaid : '#' ∉ said)
    (hcomment : IsComment comment) : before '#' (said ++ comment) = said := by
  cases hcomment with
  | none => rw [List.append_nil, before_of_notMem hsaid]
  | words words => exact before_append_cons hsaid words

theorem statement_eq_nil_iff {line : List Char} :
    statement line = [] ↔ IsBlankText (before '#' line) := trim_eq_nil_iff

/-- A line and its ending before the rest of a text. -/
theorem sourceLinesFrom_lines (count : Nat) {line ending rest : List Char} (hline : '\n' ∉ line)
    (hending : IsEnding ending rest) :
    sourceLinesFrom count (lines (line ++ ending ++ rest)) =
      sourceLinesFrom count (line :: lines rest) := by
  cases hending with
  | feed =>
    rw [List.append_assoc, List.singleton_append, lines_cons hline, sourceLinesFrom,
      sourceLinesFrom, statement_dropLastOf]
  | returnFeed =>
    have hreturn : '\n' ∉ line ++ ['\r'] := by simp [hline]
    have htext : line ++ ['\r', '\n'] ++ rest = line ++ ['\r'] ++ '\n' :: rest := by simp
    have hdrop : dropLastOf '\r' (line ++ ['\r']) = line := by simp [dropLastOf]
    rw [htext, lines_cons hreturn, hdrop]
  | none =>
    rw [List.append_nil, List.append_nil, lines_of_notMem hline]
    split
    · rename_i hnil
      subst hnil
      rfl
    · rfl

/-- A first line that says nothing is skipped. -/
theorem parse_of_blank (file : String) (count : Nat) {line : List Char}
    (h : IsBlankText (before '#' line)) (lines : List (List Char)) :
    parse file (sourceLinesFrom count (line :: lines)) =
      parse file (sourceLinesFrom (count + 1) lines) := by
  simp only [sourceLinesFrom, statement_eq_nil_iff.mpr h, if_true]

/-- A first line that says something is one directive. -/
theorem parse_eq_ok_of_statement {file : String} {count : Nat} {line : List Char}
    (h : ¬ IsBlankText (before '#' line)) {lines : List (List Char)}
    {directives : List Directive} :
    parse file (sourceLinesFrom count (line :: lines)) = .ok directives ↔
      ∃ directive rest, directives = directive :: rest ∧
        readStatement (before '#' line) = .ok (directive.antecedent, directive.consequence) ∧
        directive.location = ⟨file, .ofNat (count + 1)⟩ ∧
        parse file (sourceLinesFrom (count + 1) lines) = .ok rest := by
  simp only [sourceLinesFrom, statement_eq_nil_iff.not.mpr h, if_false, parse, List.mapM_cons,
    bind_eq_ok_iff, pure, Except.pure, Except.ok.injEq, parseLine_statement]
  constructor
  · intro hexists
    obtain ⟨directive, hdirective, rest, hrest, rfl⟩ := hexists
    cases hread : readStatement (before '#' line) with
    | error fault => simp [hread] at hdirective
    | ok sides =>
      rw [hread] at hdirective
      cases hdirective
      exact ⟨_, rest, rfl, rfl, rfl, hrest⟩
  · intro hexists
    obtain ⟨⟨antecedent, consequence, location⟩, rest, rfl, hread, hlocation, hrest⟩ := hexists
    cases hlocation
    exact ⟨_, by rw [hread], rest, hrest, rfl⟩

end Line

section Layout

variable {antecedent : Expression} {consequence : Option Expression} {text : List Char}

/-- The patterns of a statement are parts of it. -/
theorem IsStatement.subset (h : IsStatement antecedent consequence text) :
    antecedent.pattern.toList ⊆ text ∧
      ∀ expression ∈ consequence, expression.pattern.toList ⊆ text := by
  cases h with
  | alone h => exact ⟨h.subset, by simp⟩
  | conditional hfront hback =>
    refine ⟨fun c hc => ?_, fun expression hexpression c hc => ?_⟩
    · exact List.mem_append_left _ (List.mem_append_left _ (hfront.subset hc))
    · cases hexpression
      exact List.mem_append_right _ (hback.subset hc)

/-- A statement whose patterns hold no comment mark holds none. -/
theorem IsStatement.comment_notMem (h : IsStatement antecedent consequence text)
    (hantecedent : '#' ∉ antecedent.pattern.toList)
    (hconsequence : ∀ expression ∈ consequence, '#' ∉ expression.pattern.toList) : '#' ∉ text := by
  have hmark {expression : Expression} {side : List Char} (hside : expression.IsWritten side)
      (hpattern : '#' ∉ expression.pattern.toList) : '#' ∉ side :=
    (hside.mem_iff (by decide) (by decide)).not.mpr hpattern
  cases h with
  | alone h => exact hmark h hantecedent
  | conditional hfront hback =>
    simp [hmark hfront hantecedent, hmark hback (hconsequence _ rfl), arrow]

/-- A statement with a proper pattern is more than blanks. -/
theorem IsStatement.not_isBlankText (h : IsStatement antecedent consequence text)
    (hantecedent : antecedent.IsProper)
    (hconsequence : ∀ expression ∈ consequence, expression.IsProper) : ¬ IsBlankText text := by
  intro hblank
  have hread := readStatement_eq_ok_iff.mpr ⟨h, hantecedent, hconsequence⟩
  have harrow : ¬ arrow <:+: text := fun hpart =>
    hblank.notMem (c := '=') (by decide) (hpart.subset (by decide))
  rw [readStatement_one harrow, parseExpression_eq_none_iff.mpr (.blank hblank)] at hread
  cases hread

/-- What a line says is canonical. -/
theorem isCanonical_of_readStatement {line : List Char} (hline : '\n' ∉ line)
    {directive : Directive} (h : readStatement (before '#' line) =
      .ok (directive.antecedent, directive.consequence)) : directive.IsCanonical := by
  obtain ⟨hstatement, hantecedent, hconsequence⟩ := readStatement_eq_ok_iff.mp h
  obtain ⟨hfront, hback⟩ := hstatement.subset
  have hfeed : '\n' ∉ before '#' line := fun hmem =>
    hline ((List.takeWhile_prefix _).subset hmem)
  refine ⟨⟨hantecedent, fun hmem => ?_, fun hmem => ?_⟩, fun expression hexpression =>
    ⟨hconsequence _ hexpression, fun hmem => ?_, fun hmem => ?_⟩⟩
  · exact notMem_before line (hfront hmem)
  · exact hfeed (hfront hmem)
  · exact notMem_before line (hback _ hexpression hmem)
  · exact hfeed (hback _ hexpression hmem)

/-- A canonical directive is read from a line that lays it out. -/
theorem readStatement_of_isCanonical {directive : Directive} (hcanonical : directive.IsCanonical)
    {said comment : List Char} (hcomment : IsComment comment)
    (h : IsStatement directive.antecedent directive.consequence said) :
    ¬ IsBlankText (before '#' (said ++ comment)) ∧
      readStatement (before '#' (said ++ comment)) =
        .ok (directive.antecedent, directive.consequence) := by
  have hsaid := h.comment_notMem hcanonical.antecedent.comment fun expression hexpression =>
    (hcanonical.consequence expression hexpression).comment
  have hproper : ∀ expression ∈ directive.consequence, expression.IsProper :=
    fun expression hexpression => (hcanonical.consequence expression hexpression).toIsProper
  rw [before_append_comment hsaid hcomment]
  exact ⟨h.not_isBlankText hcanonical.antecedent.toIsProper hproper,
    readStatement_eq_ok_iff.mpr ⟨h, hcanonical.antecedent.toIsProper, hproper⟩⟩

/-- A layout of canonical directives is parsed to them. -/
theorem parse_of_isLayout {file : String} {count : Nat} {directives : List Directive}
    (h : IsLayout file count directives text)
    (hcanonical : ∀ directive ∈ directives, directive.IsCanonical) :
    parse file (sourceLinesFrom count (lines text)) = .ok directives := by
  induction h with
  | finished => rfl
  | @idle count directives gap comment ending rest hgap hcomment hline hending _ ih =>
    have hsaid : '#' ∉ gap := hgap.notMem (by decide)
    rw [sourceLinesFrom_lines count hline hending, parse_of_blank]
    · exact ih hcanonical
    · rw [before_append_comment hsaid hcomment]
      exact hgap
  | @directive count directive directives said comment ending rest hsaid hfile hnumber hcomment
      hline hending _ ih =>
    obtain ⟨hblank, hread⟩ :=
      readStatement_of_isCanonical (hcanonical directive List.mem_cons_self) hcomment hsaid
    have hlocation : directive.location = ⟨file, .ofNat (count + 1)⟩ := by
      rw [← hfile, ← hnumber, UInt32.ofNat_toNat]
    rw [sourceLinesFrom_lines count hline hending, parse_eq_ok_of_statement hblank]
    exact ⟨directive, directives, rfl, hread, hlocation,
      ih fun other hother => hcanonical other (List.mem_cons_of_mem _ hother)⟩

/-- A text that is not empty has a first line. -/
theorem exists_first_line {text : List Char} (hne : text ≠ []) :
    ∃ line ending rest, text = line ++ ending ++ rest ∧ '\n' ∉ line ∧ IsEnding ending rest ∧
      rest.length < text.length ∧ (lines text).length = (lines rest).length + 1 := by
  by_cases h : '\n' ∈ text
  · obtain ⟨line, rest, rfl, hline⟩ := List.eq_append_cons_of_mem h
    refine ⟨line, ['\n'], rest, by simp, hline, .feed rest, ?_, by rw [lines_cons hline]; rfl⟩
    simp only [List.length_append, List.length_cons]
    omega
  · refine ⟨text, [], [], by simp, h, .none, List.length_pos_iff.mpr hne, ?_⟩
    rw [lines_of_notMem h, if_neg hne]
    rfl

/-- A text that is parsed lays out the directives found in it, all of which are canonical. -/
theorem isLayout_of_parse {file : String} {count : Nat} {directives : List Directive}
    (hcount : count + (lines text).length < UInt32.size)
    (h : parse file (sourceLinesFrom count (lines text)) = .ok directives) :
    IsLayout file count directives text ∧ ∀ directive ∈ directives, directive.IsCanonical := by
  -- A line and its ending are taken off, so the rest is a shorter text with one line less.
  induction hlength : text.length using Nat.strongRecOn generalizing text count directives with
  | ind n ih =>
    by_cases hnil : text = []
    · subst hnil
      cases h
      exact ⟨.finished count, by simp⟩
    · obtain ⟨line, ending, rest, htext, hline, hending, hshorter, hlines⟩ :=
        exists_first_line hnil
      obtain ⟨comment, hcomment, hsplit⟩ := exists_comment line
      have hrest {others : List Directive}
          (hothers : parse file (sourceLinesFrom (count + 1) (lines rest)) = .ok others) :
          IsLayout file (count + 1) others rest ∧
            ∀ directive ∈ others, directive.IsCanonical :=
        ih rest.length (hlength ▸ hshorter) (by omega) hothers rfl
      rw [htext, sourceLinesFrom_lines count hline hending] at h
      rw [htext]
      by_cases hblank : IsBlankText (before '#' line)
      · rw [parse_of_blank file count hblank] at h
        obtain ⟨hlayout, hcanonical⟩ := hrest h
        rw [hsplit] at hline ⊢
        exact ⟨.idle hblank hcomment hline hending hlayout, hcanonical⟩
      · obtain ⟨directive, others, rfl, hread, hlocation, hothers⟩ :=
          (parse_eq_ok_of_statement hblank).mp h
        obtain ⟨hlayout, hcanonical⟩ := hrest hothers
        have hfirst := isCanonical_of_readStatement hline hread
        refine ⟨?_, List.forall_mem_cons.mpr ⟨hfirst, hcanonical⟩⟩
        have hnumber : directive.location.line.toNat = count + 1 := by
          rw [hlocation]
          exact UInt32.toNat_ofNat_of_lt' (show count + 1 < UInt32.size by omega)
        rw [hsplit] at hline ⊢
        exact .directive (readStatement_eq_ok_iff.mp hread).1 (by rw [hlocation]) hnumber hcomment
          hline hending hlayout

end Layout

section Render

/-- The written forms of some directives, each on a line of its own. -/
def render (directives : List Directive) : String :=
  .ofList (directives.flatMap fun directive => directive.text.toList ++ ['\n'])

/-- The same directives on the lines behind a number of earlier ones. -/
def numberedFrom (file : String) (count : Nat) (directives : List Directive) : List Directive :=
  (directives.zipIdx (count + 1)).map fun place =>
    { place.1 with location := ⟨file, .ofNat place.2⟩ }

/-- The written form of an expression can stand among blanks. -/
theorem isWritten_text (expression : Expression) {front back : List Char}
    (hfront : IsBlankText front) (hback : IsBlankText back) :
    expression.IsWritten (front ++ expression.text.toList ++ back) := by
  obtain ⟨pattern, negated⟩ := expression
  cases negated with
  | false => exact .plain pattern hfront hback
  | true =>
    have h := Expression.IsWritten.negated pattern hfront isBlankText_nil hback
    simpa [Expression.text, String.toList_append] using h

/-- The written form of a directive is a statement. -/
theorem isStatement_text (directive : Directive) :
    IsStatement directive.antecedent directive.consequence directive.text.toList := by
  have hspace : IsBlankText [' '] := by decide
  obtain ⟨antecedent, consequence, location⟩ := directive
  cases consequence with
  | none =>
    have h := isWritten_text antecedent isBlankText_nil isBlankText_nil
    rw [List.nil_append, List.append_nil] at h
    exact .alone h
  | some consequence =>
    have hfront := isWritten_text antecedent isBlankText_nil hspace
    have hback := isWritten_text consequence hspace isBlankText_nil
    have h := IsStatement.conditional hfront hback
    simpa [Directive.text, String.toList_append, arrow] using h

/-- The written form of a canonical directive is one line. -/
theorem feed_notMem_text {directive : Directive} (h : directive.IsCanonical) :
    '\n' ∉ directive.text.toList := by
  have hside {expression : Expression} (hline : '\n' ∉ expression.pattern.toList) :
      '\n' ∉ expression.text.toList := by
    unfold Expression.text
    split <;> simp [String.toList_append, hline]
  obtain ⟨antecedent, consequence, location⟩ := directive
  cases consequence with
  | none => exact hside h.antecedent.line
  | some consequence =>
    have hback := hside (h.consequence consequence rfl).line
    simp [Directive.text, String.toList_append, hside h.antecedent.line, hback]

/-- Written directives lay themselves out. -/
theorem isLayout_render (file : String) {count : Nat} {directives : List Directive}
    (hcanonical : ∀ directive ∈ directives, directive.IsCanonical)
    (hcount : count + directives.length < UInt32.size) :
    IsLayout file count (numberedFrom file count directives) (render directives).toList := by
  rw [render, String.toList_ofList]
  induction directives generalizing count with
  | nil => exact .finished count
  | cons directive directives ih =>
    rw [List.length_cons] at hcount
    have hfirst := hcanonical directive List.mem_cons_self
    have hnumber : (UInt32.ofNat (count + 1)).toNat = count + 1 :=
      UInt32.toNat_ofNat_of_lt' (show count + 1 < UInt32.size by omega)
    have hrest := ih (fun other hother => hcanonical other (List.mem_cons_of_mem _ hother))
      (show count + 1 + directives.length < UInt32.size by omega)
    have hline : '\n' ∉ directive.text.toList ++ [] := by simpa using feed_notMem_text hfirst
    have h : IsLayout file count
        ({ directive with location := ⟨file, .ofNat (count + 1)⟩ } ::
          numberedFrom file (count + 1) directives) _ :=
      .directive (isStatement_text directive) rfl hnumber .none hline (.feed _) hrest
    rw [List.flatMap_cons]
    simpa [numberedFrom] using h

/-- A layout has no more directives than there are line numbers. -/
theorem IsLayout.length_lt {file : String} {count : Nat} {directives : List Directive}
    {text : List Char} (h : IsLayout file count directives text) :
    directives = [] ∨ count + directives.length < UInt32.size := by
  induction h with
  | finished => exact .inl rfl
  | idle hgap hcomment hline hending hrest ih =>
    rcases ih with hnil | hlt
    · exact .inl hnil
    · exact .inr (by omega)
  | @directive count directive directives _ _ _ _ hsaid hfile hnumber hcomment hline hending hrest
      ih =>
    refine .inr ?_
    have hfirst : directive.location.line.toNat < UInt32.size :=
      directive.location.line.toNat_lt_size
    rcases ih with rfl | hlt
    · rw [List.length_singleton]
      omega
    · rw [List.length_cons]
      omega

end Render

/-- A rules text is parsed to some directives exactly if it lays them out and they are canonical.
Written down and parsed again, they are the same directives on the lines that they now stand on. -/
theorem parse_eq_ok_iff_isLayout {file text : String}
    (h : (lines text.toList).length < UInt32.size) :
    (∀ directives, parse file (sourceLines text) = .ok directives ↔
      IsLayout file 0 directives text.toList ∧
        ∀ directive ∈ directives, directive.IsCanonical) ∧
    ∀ directives, parse file (sourceLines text) = .ok directives →
      parse file (sourceLines (render directives)) = .ok (numberedFrom file 0 directives) := by
  have hlayout {directives : List Directive} (hparse : parse file (sourceLines text) = .ok directives) :
      IsLayout file 0 directives text.toList ∧ ∀ directive ∈ directives, directive.IsCanonical :=
    isLayout_of_parse (by omega) hparse
  refine ⟨fun directives => ⟨hlayout, fun hlaid => parse_of_isLayout hlaid.1 hlaid.2⟩,
    fun directives hparse => ?_⟩
  obtain ⟨hlaid, hcanonical⟩ := hlayout hparse
  have hcount : 0 + directives.length < UInt32.size := by
    rcases hlaid.length_lt with rfl | hlt
    · decide
    · exact hlt
  refine parse_of_isLayout (isLayout_render file hcanonical hcount) fun directive hdirective => ?_
  obtain ⟨place, hplace, rfl⟩ := List.mem_map.mp hdirective
  have hmem : place.1 ∈ directives := by
    obtain ⟨-, -, hget⟩ := List.mem_zipIdx (x := place.1) (i := place.2) hplace
    exact hget ▸ List.getElem_mem _
  exact ⟨(hcanonical _ hmem).antecedent, (hcanonical _ hmem).consequence⟩

/-- A text with every kind of line: marks and patterns that touch, other blanks, and comments. -/
theorem parse_render_touching_marks :
    (lines "# rules\r\n a==>>b\t# c\r\n\n\u00a0!!x\r y =>!  z=\n".toList).length < UInt32.size ∧
    parse "rules" (sourceLines "# rules\r\n a==>>b\t# c\r\n\n\u00a0!!x\r y =>!  z=\n") =
      .ok [⟨⟨"a=", false⟩, some ⟨">b", false⟩, ⟨"rules", 2⟩⟩,
        ⟨⟨"!x\r y", true⟩, some ⟨"z=", true⟩, ⟨"rules", 4⟩⟩] ∧
    parse "rules" (sourceLines "a= => >b\n!!x\r y => !z=\n") =
      .ok [⟨⟨"a=", false⟩, some ⟨">b", false⟩, ⟨"rules", 1⟩⟩,
        ⟨⟨"!x\r y", true⟩, some ⟨"z=", true⟩, ⟨"rules", 2⟩⟩] := by
  have hlines : (lines "# rules\r\n a==>>b\t# c\r\n\n\u00a0!!x\r y =>!  z=\n".toList).length <
      UInt32.size := by decide +kernel
  have hparse : parse "rules"
      (sourceLines "# rules\r\n a==>>b\t# c\r\n\n\u00a0!!x\r y =>!  z=\n") =
      .ok [⟨⟨"a=", false⟩, some ⟨">b", false⟩, ⟨"rules", 2⟩⟩,
        ⟨⟨"!x\r y", true⟩, some ⟨"z=", true⟩, ⟨"rules", 4⟩⟩] := by decide +kernel
  have hagain := (parse_eq_ok_iff_isLayout hlines).2 _ hparse
  have hrender : render [⟨⟨"a=", false⟩, some ⟨">b", false⟩, ⟨"rules", 2⟩⟩,
      ⟨⟨"!x\r y", true⟩, some ⟨"z=", true⟩, ⟨"rules", 4⟩⟩] =
      "a= => >b\n!!x\r y => !z=\n" := by decide +kernel
  have hnumbered : numberedFrom "rules" 0 [⟨⟨"a=", false⟩, some ⟨">b", false⟩, ⟨"rules", 2⟩⟩,
      ⟨⟨"!x\r y", true⟩, some ⟨"z=", true⟩, ⟨"rules", 4⟩⟩] =
      [⟨⟨"a=", false⟩, some ⟨">b", false⟩, ⟨"rules", 1⟩⟩,
        ⟨⟨"!x\r y", true⟩, some ⟨"z=", true⟩, ⟨"rules", 2⟩⟩] := rfl
  rw [hrender, hnumbered] at hagain
  exact ⟨hlines, hparse, hagain⟩

end Rules

end TreeLayout
