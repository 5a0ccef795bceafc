import TreeLayout.Proofs.Glob.Openings
import TreeLayout.Proofs.Inquiry

/-!
# The outline of a glob

Whether a text is a glob depends only on how many groups are open and on whether the next character is
escaped or belongs to a class; what its stars mean does not matter. Every character changes this outline
of a reader in the same way, whatever was read before (`outline_step`), so a text is judged in parts.
Between plain texts, a text makes a glob if it is one itself, or if it is one up to a last backslash that
has a character after it (`isGlobText_between_iff`).
-/

namespace TreeLayout.Glob

/-- A text that can be read as a glob. -/
def IsGlobText (text : List Char) : Prop := ∃ tokens, parse false text = .ok tokens

/-- How many groups are open, and what the next character continues. -/
inductive Outline where
  | text (groups : Nat)
  | escape (groups : Nat)
  | class (groups : Nat) (reader : ClassReader)

namespace Outline

/-- Read a character that is neither escaped nor in a class. -/
def stepText (groups : Nat) (c : Char) : Except Fault Outline :=
  match c with
  | '[' => .ok (.class groups {})
  | '\x7b' => .ok (.text (groups + 1))
  | '\x7d' =>
    match groups with
    | 0 => .error .unopenedGroup
    | groups + 1 => .ok (.text groups)
  | '\\' => .ok (.escape groups)
  | _ => .ok (.text groups)

/-- Read one more character of a class; its closing bracket leads back to the text. -/
def stepClass (groups : Nat) (reader : ClassReader) (c : Char) : Except Fault Outline :=
  (reader.step c).map fun
    | .inl reader => .class groups reader
    | .inr _ => .text groups

/-- Read one character. -/
def step : Outline → Char → Except Fault Outline
  | .text groups, c => stepText groups c
  | .escape groups, _ => .ok (.text groups)
  | .class groups reader, c => stepClass groups reader c

/-- Read a whole text. -/
def run (outline : Outline) (text : List Char) : Except Fault Outline := text.foldlM step outline

/-- A plain character leaves the text as it is. -/
theorem stepText_of_isPlain {groups : Nat} {c : Char} (h : IsPlain [c]) :
    stepText groups c = .ok (.text groups) := by
  obtain ⟨hclass, hopen, hclose, hescape⟩ := h c (List.mem_singleton_self c)
  unfold stepText
  split
  · exact absurd rfl hclass
  · exact absurd rfl hopen
  · exact absurd rfl hclose
  · exact absurd rfl hescape
  · rfl

end Outline

namespace Reader

/-- The outline of what has been read. -/
def outline (reader : Reader) : Outline :=
  match reader.mode with
  | .escape => .escape reader.outer.length
  | .class classReader => .class reader.outer.length classReader
  | .text | .star _ | .stars _ => .text reader.outer.length

/-- Brackets are neither lenient nor literal. -/
structure IsStrict (reader : Reader) : Prop where
  lenient : reader.lenient = false
  literalBrackets : reader.literalBrackets = false

variable {reader next : Reader} {c : Char} {rest text : List Char}

theorem Advances.isStrict (h : Advances reader next) (hstrict : reader.IsStrict) : next.IsStrict :=
  ⟨h.lenient.trans hstrict.lenient, (h.literalBrackets hstrict.lenient).trans hstrict.literalBrackets⟩

/-- A character that starts a token changes the outline of the text. -/
theorem outline_stepText (h : reader.IsStrict) (hmode : reader.mode = .text) (c : Char)
    (rest : List Char) :
    (reader.stepText c rest).map outline = Outline.stepText reader.outer.length c := by
  obtain ⟨hlenient, hbrackets⟩ := h
  have hpush (token : Token) : (push { reader with last := some c } token).outline =
      .text reader.outer.length := by
    simp [outline, push, hmode]
  unfold stepText
  split
  · exact congrArg Except.ok (hpush _)
  · rfl
  · rw [if_neg (by simp [hbrackets]), if_neg (by simp [hlenient])]
    rfl
  · simp [Except.map, outline, hmode, Outline.stepText]
  · cases houter : reader.outer with
    | nil => rfl
    | cons level outer => simp [Except.map, outline, hmode, Outline.stepText]
  · split
    · simp [Except.map, outline, hmode, Outline.stepText]
    · exact congrArg Except.ok (hpush _)
  · rfl
  · rename_i _ _ hclass hopen hclose _ hescape
    rw [Outline.stepText_of_isPlain]
    · exact congrArg Except.ok (hpush _)
    · simpa [IsPlain] using ⟨hclass, hopen, hclose, hescape⟩

/-- Of the characters after two stars, only a slash can belong to them. -/
theorem eq_slash_of_closeStars (reader : Reader) (before : Option Char) (c : Char)
    (h : (reader.closeStars before (some c)).2 = true) : c = '/' := by
  rw [closeStars_eq] at h
  cases hmeaning : starsMeaning reader.level.tokens.isEmpty reader.inGroup before (some c) with
  | twoRuns | trailing =>
    rw [hmeaning] at h
    cases h
  | leading =>
    unfold starsMeaning at hmeaning
    grind
  | inner => exact Option.some.inj (of_inner hmeaning).2

/-- What one character does to the outline does not depend on anything else. -/
theorem outline_step (h : reader.IsStrict) (c : Char) (rest : List Char) :
    (reader.step c rest).map outline = reader.outline.step c := by
  rw [step, outline]
  cases hmode : reader.mode with
  | text => exact outline_stepText h hmode c rest
  | escape => rfl
  | star before =>
    by_cases hstar : c = '*'
    · subst hstar
      rfl
    · simp only [if_neg hstar]
      have hstrict : IsStrict { reader.push .anyRun with mode := .text } :=
        ⟨h.lenient, h.literalBrackets⟩
      exact outline_stepText hstrict rfl c rest
  | stars before =>
    simp only
    have hslash := reader.eq_slash_of_closeStars before c
    have hstrict := (reader.advances_closeStars before c).isStrict h
    obtain ⟨houter, hmode⟩ := reader.outer_closeStars before (some c)
    generalize reader.closeStars before (some c) = closed at hslash hstrict houter hmode ⊢
    obtain ⟨closed, slashIsTheirs⟩ := closed
    simp only at hslash hstrict houter hmode
    rw [← houter]
    cases slashIsTheirs with
    | true =>
      obtain rfl := hslash rfl
      simp only [Except.map, outline, hmode]
      rfl
    | false => exact outline_stepText hstrict hmode c rest
  | «class» classReader =>
    simp only [Outline.step, Outline.stepClass]
    cases classReader.step c with
    | error fault => rfl
    | ok read => cases read <;> rfl

/-- What a text does to the outline does not depend on anything else. -/
theorem outline_run (h : reader.IsStrict) (text : List Char) :
    (reader.run text).map outline = reader.outline.run text := by
  induction text generalizing reader with
  | nil => rfl
  | cons c rest ih =>
    rw [run, Outline.run, List.foldlM_cons, ← outline_step h c rest]
    cases hstep : reader.step c rest with
    | error fault => rfl
    | ok next => exact ih ((advances_step hstep).isStrict h)

/-- A glob can end where no group is open and no character is escaped or in a class. -/
theorem exists_finish_iff : (∃ tokens, reader.finish = .ok tokens) ↔ reader.outline = .text 0 := by
  have hend (r : Reader) (h : r.outer = reader.outer) :
      (∃ tokens, (if r.inGroup then throw Fault.unclosedGroup else
        pure r.level.tokens.reverse : Except Fault (List Token)) = .ok tokens) ↔
      Outline.text reader.outer.length = .text 0 := by
    rw [← h]
    cases houter : r.outer with
    | nil => simp [inGroup, houter, pure, Except.pure]
    | cons => simp [inGroup, houter, throw, throwThe, MonadExceptOf.throw]
  rw [finish, outline]
  cases reader.mode with
  | text => exact hend reader rfl
  | star => exact hend (reader.push .anyRun) rfl
  | stars before => exact hend _ (reader.outer_closeStars before none).1
  | escape | «class» => simp [bind, Except.bind, throw, throwThe, MonadExceptOf.throw]

end Reader

/-- A text is a glob if its outline is that of an empty text. -/
theorem isGlobText_iff {text : List Char} :
    IsGlobText text ↔ (Outline.text 0).run text = .ok (.text 0) := by
  have hstrict : Reader.IsStrict { lenient := false } := ⟨rfl, rfl⟩
  have hrun : (Reader.run { lenient := false } text).map Reader.outline = (Outline.text 0).run text :=
    Reader.outline_run hstrict text
  rw [IsGlobText, parse, ← hrun]
  cases Reader.run { lenient := false } text with
  | error fault => simp [bind, Except.bind, Except.map]
  | ok reader => exact Reader.exists_finish_iff.trans ⟨congrArg Except.ok, Except.ok.inj⟩

namespace Outline

variable {outline next : Outline} {text : List Char}

theorem run_append (outline : Outline) (front back : List Char) :
    outline.run (front ++ back) = outline.run front >>= (·.run back) := List.foldlM_append

/-- A plain text leaves the text as it is. -/
theorem run_of_isPlain (groups : Nat) (h : IsPlain text) :
    (Outline.text groups).run text = .ok (.text groups) := by
  induction text with
  | nil => rfl
  | cons c rest ih =>
    rw [run, List.foldlM_cons, step, stepText_of_isPlain fun d hd => h d (by simp_all)]
    exact ih fun d hd => h d (List.mem_cons_of_mem c hd)

/-- A text without a closing bracket does not lead out of a class. -/
theorem exists_of_run_class {groups : Nat} {reader : ClassReader} (hclose : ']' ∉ text)
    (h : (Outline.class groups reader).run text = .ok next) :
    ∃ reader, next = .class groups reader := by
  induction text generalizing reader with
  | nil => exact ⟨reader, (Except.ok.inj h).symm⟩
  | cons c rest ih =>
    rw [run, List.foldlM_cons, step, stepClass] at h
    cases hread : reader.step c with
    | error fault =>
      rw [hread] at h
      cases h
    | ok read =>
      rw [hread] at h
      cases read with
      | inl reader => exact ih (fun hmem => hclose (List.mem_cons_of_mem c hmem)) h
      | inr token =>
        -- Only a closing bracket yields a token.
        refine absurd ?_ hclose
        unfold ClassReader.step at hread
        grind

/-- Only a backslash in the text escapes the next character. -/
theorem step_eq_escape_iff {groups : Nat} {c : Char} :
    outline.step c = .ok (.escape groups) ↔ outline = .text groups ∧ c = '\\' := by
  cases outline with
  | text depth =>
    unfold step stepText
    grind
  | escape => simp [step]
  | «class» depth reader =>
    rw [step, stepClass]
    cases reader.step c with
    | error fault => simp [Except.map]
    | ok read => cases read <;> simp [Except.map]

/-- The character after a text is escaped if a last backslash in the text escapes it. -/
theorem run_eq_escape_iff {groups depth : Nat} :
    (Outline.text depth).run text = .ok (.escape groups) ↔
      ∃ lead, text = lead ++ ['\\'] ∧ (Outline.text depth).run lead = .ok (.text groups) := by
  constructor
  · intro h
    rcases List.eq_nil_or_concat text with rfl | ⟨lead, c, rfl⟩
    · cases h
    · rw [List.concat_eq_append, run_append, bind_eq_ok_iff] at h
      obtain ⟨middle, hlead, hlast⟩ := h
      have hstep : middle.step c = .ok (.escape groups) := (bind_pure (middle.step c)).symm.trans hlast
      obtain ⟨rfl, rfl⟩ := step_eq_escape_iff.mp hstep
      exact ⟨lead, List.concat_eq_append, hlead⟩
  · intro h
    obtain ⟨lead, rfl, hlead⟩ := h
    rw [run_append, hlead]
    rfl

end Outline

/-- Behind a glob, a text makes a glob if it is one itself. -/
theorem isGlobText_append_iff {front back : List Char} (hfront : IsGlobText front) :
    IsGlobText (front ++ back) ↔ IsGlobText back := by
  rw [isGlobText_iff] at hfront
  rw [isGlobText_iff, isGlobText_iff, Outline.run_append, hfront]
  rfl

/-- Between plain texts, a text makes a glob if it is one itself, or if it is one up to a last backslash
that has a character after it. -/
theorem isGlobText_between_iff {front value back : List Char} (hfront : IsPlain front)
    (hback : IsPlain back) (hclose : ']' ∉ back) : IsGlobText (front ++ value ++ back) ↔
      IsGlobText value ∨ back ≠ [] ∧ ∃ lead, value = lead ++ ['\\'] ∧ IsGlobText lead := by
  have hwhole : IsGlobText (front ++ value ++ back) ↔
      ((Outline.text 0).run value >>= (·.run back)) = .ok (.text 0) := by
    rw [isGlobText_iff, List.append_assoc, Outline.run_append, Outline.run_of_isPlain 0 hfront]
    exact Eq.congr_left (Outline.run_append (.text 0) value back)
  simp only [hwhole, isGlobText_iff, ← Outline.run_eq_escape_iff]
  cases (Outline.text 0).run value with
  | error fault => simp [bind, Except.bind]
  | ok outline =>
    rw [show (Except.ok outline >>= (·.run back)) = outline.run back from rfl]
    cases outline with
    | text groups => simp [Outline.run_of_isPlain groups hback]
    | escape groups =>
      cases back with
      | nil => simp [Outline.run, pure, Except.pure]
      | cons c back =>
        have hrest : IsPlain back := fun d hd => hback d (List.mem_cons_of_mem c hd)
        have hstep : (Outline.escape groups).run (c :: back) = .ok (.text groups) :=
          Outline.run_of_isPlain groups hrest
        simp [hstep]
    | «class» groups reader =>
      have hstays : (Outline.class groups reader).run back ≠ .ok (.text 0) := by
        intro hrun
        obtain ⟨_, hnext⟩ := Outline.exists_of_run_class hclose hrun
        cases hnext
      simp [hstays]

end TreeLayout.Glob
