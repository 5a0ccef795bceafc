import Mathlib.Data.List.Basic
import TreeLayout.Glob.Parser

/-!
# How a glob is read

What one character does to a reader of globs, and from it what a whole text does. The tokens of the
glob itself, outside of its groups, only grow at their end (`Reader.advances_run`). What was read before
them changes nothing about how the rest is read (`Reader.read_atop`), so a glob can be read in parts.

Only strict brackets are covered; lenient ones look ahead over the whole rest of the text.
-/

namespace TreeLayout.Glob

/-- Tokens that keep their place once they have been read. -/
def Token.isSettled : Token → Bool
  | .leadingStars | .trailingStars | .innerStars => false
  | _ => true

/-- How the tokens of a glob, latest first, can grow while its text is read. -/
inductive Grows (start : List Token) : List Token → Prop where
  | refl : Grows start start
  | push {tokens : List Token} {token : Token} :
      Grows start tokens → token.isSettled → Grows start (token :: tokens)
  | leading : Grows start [] → Grows start [.leadingStars]
  | inner {tokens : List Token} {token : Token} :
      Grows start (token :: tokens) → token ≠ .leadingStars → Grows start (.innerStars :: tokens)

namespace Grows

/-- Growth in two stages. -/
theorem trans {start middle tokens : List Token} (h : Grows start middle)
    (k : Grows middle tokens) : Grows start tokens := by
  induction k with
  | refl => exact h
  | push _ ht ih => exact .push ih ht
  | leading _ ih => exact .leading ih
  | inner _ ht ih => exact .inner ih ht

theorem ne_nil {start tokens : List Token} (h : Grows start tokens) (hne : start ≠ []) :
    tokens ≠ [] := by
  cases h with
  | refl => exact hne
  | push | leading | inner => exact List.cons_ne_nil _ _

end Grows

/-- A class is read into one settled token. -/
theorem ClassReader.isSettled_of_step {reader : ClassReader} {c : Char}
    {token : Token} (h : reader.step c = .ok (.inr token)) : token.isSettled := by
  unfold ClassReader.step at h
  grind [Token.isSettled]

/-- The outermost of some levels, given from the innermost one. -/
def Level.outermost : Level → List Level → Level
  | level, [] => level
  | _, level :: outer => outermost level outer

/-- Some levels, given from the innermost one, with further tokens before those of the outermost. -/
def Level.atop (base : List Token) : Level → List Level → Level × List Level
  | level, [] => ({ level with tokens := level.tokens ++ base }, [])
  | level, next :: outer => (level, (atop base next outer).1 :: (atop base next outer).2)

theorem Level.atop_push (base : List Token) (level : Level) (token : Token) (outer : List Level) :
    Level.atop base (level.push token) outer =
      ((Level.atop base level outer).1.push token, (Level.atop base level outer).2) := by
  cases outer <;> rfl

/-- What two stars can mean: two single stars, or one of the three double-star tokens. -/
inductive StarsMeaning where
  | twoRuns
  | leading
  | inner
  | trailing
deriving DecidableEq, Repr

/-- The meaning of two stars, from whether they come first in their branch, whether they stand
within a group, and the characters before and after them. -/
def starsMeaning (isFirst inGroup : Bool) (before next : Option Char) : StarsMeaning :=
  if isFirst then if next.all (· = '/') then .leading else .twoRuns
  else if before = some '/' || (inGroup && (before = some ',' || before = some '\x7b')) then
    match next with
    | none => .trailing
    | some c =>
      if c = '/' then .inner
      else if inGroup && (c = ',' || c = '\x7d') then .trailing
      else .twoRuns
  else .twoRuns

/-- Only the first stars of a branch are leading. -/
theorem isFirst_of_leading {isFirst inGroup : Bool} {before next : Option Char}
    (h : starsMeaning isFirst inGroup before next = .leading) : isFirst = true := by
  unfold starsMeaning at h
  grind

/-- Inner stars have a slash after them and are not the first of their branch. -/
theorem of_inner {isFirst inGroup : Bool} {before next : Option Char}
    (h : starsMeaning isFirst inGroup before next = .inner) :
    isFirst = false ∧ next = some '/' := by
  unfold starsMeaning at h
  grind

/-- Outside of groups, trailing stars end the glob. -/
theorem of_trailing {isFirst inGroup : Bool} {before next : Option Char}
    (h : starsMeaning isFirst inGroup before next = .trailing) :
    isFirst = false ∧ (inGroup = true ∨ next = none) := by
  unfold starsMeaning at h
  grind

namespace Reader

/-- The level of the glob itself, around all open groups. -/
def ground (reader : Reader) : Level := Level.outermost reader.level reader.outer

/-- A reader that has read further tokens, given latest first, before all of its own. -/
def atop (base : List Token) (reader : Reader) : Reader :=
  { reader with
    level := (Level.atop base reader.level reader.outer).1
    outer := (Level.atop base reader.level reader.outer).2 }

/-- Read a text to its end. -/
def read (reader : Reader) (text : List Char) : Except Fault (List Token) := do
  (← reader.run text).finish

theorem parse_eq_read (lenient : Bool) (text : List Char) :
    parse lenient text = Reader.read { lenient } text := rfl

theorem read_nil (reader : Reader) : reader.read [] = reader.finish := rfl

theorem read_cons (reader : Reader) (c : Char) (text : List Char) :
    reader.read (c :: text) = (reader.step c text).bind (·.read text) := by
  simp only [read, run, bind, Except.bind]
  cases reader.step c text <;> rfl

/-- A reader past two stars that have not been given a meaning yet. -/
def pastStars (reader : Reader) : Reader := { reader with mode := .text, last := some '*' }

/-- A reader with two stars in one of their meanings, and whether a slash after them is theirs. -/
def pushMeaning (reader : Reader) : StarsMeaning → Reader × Bool
  | .twoRuns => ((reader.push .anyRun).push .anyRun, false)
  | .leading => (reader.push .leadingStars, true)
  | .inner => (reader.pushStars .innerStars, true)
  | .trailing => (reader.pushStars .trailingStars, false)

/-- Two stars get their meaning from what a reader knows about their neighbours. -/
theorem closeStars_eq (reader : Reader) (before next : Option Char) :
    reader.closeStars before next = reader.pastStars.pushMeaning
      (starsMeaning reader.level.tokens.isEmpty reader.inGroup before next) := by
  simp only [closeStars, starsMeaning]
  split
  · split <;> rfl
  · rw [show inGroup { reader with mode := .text, last := some '*' } = reader.inGroup from rfl]
    split
    · split
      · rfl
      · rfl
      · rename_i hslash
        simp only [if_neg hslash]
        split <;> rfl
    · rfl

section Growth

/-- What reading leaves as it is, and how the glob's tokens can change on the way. -/
structure Advances (reader next : Reader) : Prop where
  tokens : Grows reader.ground.tokens next.ground.tokens
  branches : next.ground.branches = reader.ground.branches
  lenient : next.lenient = reader.lenient
  literalBrackets : reader.lenient = false → next.literalBrackets = reader.literalBrackets

namespace Advances

theorem refl (reader : Reader) : Advances reader reader := ⟨.refl, rfl, rfl, fun _ => rfl⟩

theorem trans {reader middle next : Reader} (h : Advances reader middle)
    (k : Advances middle next) : Advances reader next where
  tokens := h.tokens.trans k.tokens
  branches := k.branches.trans h.branches
  lenient := k.lenient.trans h.lenient
  literalBrackets strict :=
    (k.literalBrackets (h.lenient.trans strict)).trans (h.literalBrackets strict)

/-- Nothing changes for the glob's tokens where its own level stays as it is. -/
theorem of_ground_eq {reader next : Reader} (hground : next.ground = reader.ground)
    (hlenient : next.lenient = reader.lenient)
    (hbrackets : reader.lenient = false → next.literalBrackets = reader.literalBrackets) :
    Advances reader next :=
  ⟨hground ▸ .refl, by rw [hground], hlenient, hbrackets⟩

end Advances

/-- A settled token makes the glob's tokens grow, or stays within a group. -/
theorem advances_push (reader : Reader) {token : Token} (h : token.isSettled) :
    Advances reader (reader.push token) := by
  cases houter : reader.outer with
  | nil =>
    refine ⟨?_, ?_, rfl, fun _ => rfl⟩
    · simpa [ground, push, Level.push, Level.outermost, houter] using Grows.refl.push h
    · simp [ground, push, Level.push, Level.outermost, houter]
  | cons =>
    exact .of_ground_eq (by simp [ground, push, Level.outermost, houter]) rfl fun _ => rfl

/-- Within a group, a double-star token leaves the glob's own level as it is. -/
theorem ground_pushStars (reader : Reader) (h : reader.outer ≠ []) (token : Token) :
    (reader.pushStars token).ground = reader.ground := by
  obtain ⟨level, outer, houter⟩ := List.exists_cons_of_ne_nil h
  simp [ground, pushStars, Level.outermost, houter]

/-- Inner stars take the place of the last token, except after leading stars. -/
theorem advances_pushStars (reader : Reader) (hlevel : reader.level.tokens ≠ []) :
    Advances reader (reader.pushStars .innerStars) := by
  by_cases houter : reader.outer = []
  · obtain ⟨token, tokens, htokens⟩ := List.exists_cons_of_ne_nil hlevel
    refine ⟨?_, by simp [ground, pushStars, Level.outermost, houter], rfl, fun _ => rfl⟩
    simp only [ground, pushStars, Level.outermost, houter, htokens]
    cases token with
    | leadingStars | trailingStars => exact .refl
    | _ => exact .inner .refl (by simp)
  · exact .of_ground_eq (reader.ground_pushStars houter _) rfl fun _ => rfl

/-- Two stars that do not end the glob make its tokens grow. -/
theorem advances_closeStars (reader : Reader) (before : Option Char) (c : Char) :
    Advances reader (reader.closeStars before (some c)).1 := by
  have hpast : Advances reader reader.pastStars := .of_ground_eq rfl rfl fun _ => rfl
  refine hpast.trans ?_
  rw [closeStars_eq]
  cases hmeaning : starsMeaning reader.level.tokens.isEmpty reader.inGroup before (some c) with
  | twoRuns =>
    exact (reader.pastStars.advances_push rfl).trans
      ((reader.pastStars.push .anyRun).advances_push rfl)
  | leading =>
    have hlevel : reader.level.tokens = [] := List.isEmpty_iff.mp (isFirst_of_leading hmeaning)
    cases houter : reader.outer with
    | nil =>
      refine ⟨?_, ?_, rfl, fun _ => rfl⟩
      · simpa [ground, pushMeaning, push, pastStars, Level.push, Level.outermost, houter, hlevel]
          using Grows.leading .refl
      · simp [ground, pushMeaning, push, pastStars, Level.push, Level.outermost, houter]
    | cons =>
      refine .of_ground_eq ?_ rfl fun _ => rfl
      simp [ground, pushMeaning, push, pastStars, Level.outermost, houter]
  | inner =>
    have hlevel : reader.level.tokens ≠ [] := by simpa using (of_inner hmeaning).1
    exact reader.pastStars.advances_pushStars hlevel
  | trailing =>
    have houter : reader.outer ≠ [] := by simpa [inGroup] using (of_trailing hmeaning).2
    exact .of_ground_eq (reader.pastStars.ground_pushStars houter _) rfl fun _ => rfl

/-- What a character that starts a token does. -/
theorem advances_stepText {reader next : Reader} {c : Char} {rest : List Char}
    (h : reader.stepText c rest = .ok next) : Advances reader next := by
  have hlast : Advances reader { reader with last := some c } := .of_ground_eq rfl rfl fun _ => rfl
  have hpush (token : Token) (ht : token.isSettled) :
      Advances reader (push { reader with last := some c } token) :=
    hlast.trans (advances_push _ ht)
  unfold stepText at h
  split at h
  · cases h
    exact hpush _ rfl
  · cases h
    exact .of_ground_eq rfl rfl fun _ => rfl
  · split at h
    · cases h
      exact hpush _ rfl
    · split at h
      · rename_i hlenient
        cases h
        refine (hpush (.literal '[') rfl).trans (.of_ground_eq rfl rfl fun strict => ?_)
        simp [show reader.lenient = false from strict] at hlenient
      · cases h
        exact .of_ground_eq rfl rfl fun _ => rfl
  · cases h
    exact .of_ground_eq rfl rfl fun _ => rfl
  · split at h
    · cases h
    · rename_i level outer houter
      cases h
      have hpop : Advances reader { reader with last := some '\x7d', level, outer } :=
        .of_ground_eq (by simp [ground, houter, Level.outermost]) rfl fun _ => rfl
      exact hpop.trans (advances_push _ rfl)
  · split at h
    · rename_i hgroup
      cases h
      obtain ⟨level, outer, houter⟩ : ∃ level outer, reader.outer = level :: outer :=
        List.exists_cons_of_ne_nil (by simpa [inGroup] using hgroup)
      exact .of_ground_eq (by simp [ground, houter, Level.outermost]) rfl fun _ => rfl
    · cases h
      exact hpush _ rfl
  · cases h
    exact .of_ground_eq rfl rfl fun _ => rfl
  · cases h
    exact hpush _ rfl

/-- What one character does. -/
theorem advances_step {reader next : Reader} {c : Char} {rest : List Char}
    (h : reader.step c rest = .ok next) : Advances reader next := by
  have hpush (token : Token) (ht : token.isSettled) : Advances reader (reader.push token) :=
    advances_push reader ht
  unfold step at h
  split at h
  · exact advances_stepText h
  · cases h
    exact (hpush (.literal c) rfl).trans (.of_ground_eq rfl rfl fun _ => rfl)
  · split at h
    · cases h
      exact .of_ground_eq rfl rfl fun _ => rfl
    · have hmode : Advances reader { reader.push .anyRun with mode := .text } :=
        (hpush _ rfl).trans (.of_ground_eq rfl rfl fun _ => rfl)
      exact hmode.trans (advances_stepText h)
  · rename_i before _
    have hclose := advances_closeStars reader before c
    split at h
    · rename_i closed hclosed
      rw [hclosed] at hclose
      cases h
      exact hclose.trans (.of_ground_eq rfl rfl fun _ => rfl)
    · rename_i closed hclosed
      rw [hclosed] at hclose
      exact hclose.trans (advances_stepText h)
  · rename_i classReader _
    cases hstep : classReader.step c with
    | error fault => simp [hstep, bind, Except.bind] at h
    | ok read =>
      cases read with
      | inl classReader =>
        simp only [hstep, bind, Except.bind, Except.ok.injEq] at h
        subst h
        exact .of_ground_eq rfl rfl fun _ => rfl
      | inr token =>
        simp only [hstep, bind, Except.bind, Except.ok.injEq] at h
        subst h
        exact (hpush _ (ClassReader.isSettled_of_step hstep)).trans
          (.of_ground_eq rfl rfl fun _ => rfl)

/-- What a text does. -/
theorem advances_run {reader next : Reader} {text : List Char} (h : reader.run text = .ok next) :
    Advances reader next := by
  induction text generalizing reader with
  | nil =>
    cases h
    exact .refl _
  | cons c rest ih =>
    simp only [run, bind, Except.bind] at h
    split at h
    · cases h
    · rename_i middle hstep
      exact (advances_step hstep).trans (ih h)

end Growth

section Frame

variable {base : List Token} {reader : Reader}

@[simp] theorem atop_inGroup : (reader.atop base).inGroup = reader.inGroup := by
  cases houter : reader.outer <;> simp [atop, Level.atop, inGroup, houter]

theorem atop_push (base : List Token) (reader : Reader) (token : Token) :
    (reader.push token).atop base = (reader.atop base).push token := by
  simp [atop, push, Level.atop_push]

/-- Whether a reader is past the start of the glob: the glob itself has a token, or a group is open. -/
def HasStarted (reader : Reader) : Prop := reader.ground.tokens ≠ [] ∨ reader.outer ≠ []

theorem hasStarted_push (reader : Reader) (token : Token) : (reader.push token).HasStarted := by
  cases houter : reader.outer with
  | nil => exact .inl (by simp [ground, push, Level.push, Level.outermost, houter])
  | cons => exact .inr (by simp [push, houter])

/-- Tokens below do not show where a reader has started. -/
theorem atop_isEmpty (hstarted : reader.HasStarted) :
    (reader.atop base).level.tokens.isEmpty = reader.level.tokens.isEmpty := by
  cases houter : reader.outer with
  | nil =>
    have hlevel : reader.level.tokens ≠ [] := by
      simpa [HasStarted, ground, Level.outermost, houter] using hstarted
    obtain ⟨token, tokens, htokens⟩ := List.exists_cons_of_ne_nil hlevel
    simp [atop, Level.atop, houter, htokens]
  | cons => simp [atop, Level.atop, houter]

theorem atop_pushStars (hlevel : reader.level.tokens ≠ []) (token : Token) :
    (reader.pushStars token).atop base = (reader.atop base).pushStars token := by
  obtain ⟨top, tokens, htokens⟩ := List.exists_cons_of_ne_nil hlevel
  cases houter : reader.outer with
  | nil => cases top <;> simp [atop, pushStars, Level.atop, houter, htokens]
  | cons => simp [atop, pushStars, Level.atop, houter]

/-- Two stars change what was read before them only at its end. -/
theorem atop_pushMeaning (base : List Token) (reader : Reader) {meaning : StarsMeaning}
    (hlevel : meaning = .inner ∨ meaning = .trailing → reader.level.tokens ≠ []) :
    (reader.atop base).pushMeaning meaning =
      ((reader.pushMeaning meaning).1.atop base, (reader.pushMeaning meaning).2) := by
  cases meaning with
  | twoRuns => simp only [pushMeaning, atop_push]
  | leading => simp only [pushMeaning, atop_push]
  | inner => simp only [pushMeaning, atop_pushStars (hlevel (.inl rfl))]
  | trailing => simp only [pushMeaning, atop_pushStars (hlevel (.inr rfl))]

/-- The meaning of two stars depends on whether there are tokens before them, not on which. -/
theorem closeStars_atop (hstarted : reader.HasStarted) (before next : Option Char) :
    (reader.atop base).closeStars before next =
      ((reader.closeStars before next).1.atop base, (reader.closeStars before next).2) := by
  rw [closeStars_eq, closeStars_eq, atop_isEmpty hstarted, atop_inGroup]
  refine reader.pastStars.atop_pushMeaning base fun hmeaning => ?_
  have hfirst : reader.level.tokens.isEmpty = false :=
    hmeaning.elim (fun h => (of_inner h).1) fun h => (of_trailing h).1
  simpa [pastStars] using hfirst

/-- What a character starts does not depend on the tokens below. -/
theorem stepText_atop (base : List Token) (reader : Reader) (c : Char) (rest : List Char) :
    (reader.atop base).stepText c rest = (reader.stepText c rest).map (atop base) := by
  have hpush (token : Token) : push { reader.atop base with last := some c } token =
      (push { reader with last := some c } token).atop base :=
    (atop_push base { reader with last := some c } token).symm
  unfold stepText
  split
  · exact congrArg Except.ok (hpush _)
  · rfl
  · rw [show (reader.atop base).literalBrackets = reader.literalBrackets from rfl,
      show (reader.atop base).lenient = reader.lenient from rfl]
    split
    · exact congrArg Except.ok (hpush _)
    · split
      · exact congrArg (fun next : Reader => Except.ok { next with literalBrackets := true })
          (hpush (.literal '['))
      · rfl
  · rfl
  · cases houter : reader.outer with
    | nil => simp [atop, Level.atop, houter, Except.map]
    | cons level outer => simp [atop, Level.atop, Level.atop_push, houter, Except.map]
  · rw [atop_inGroup]
    split
    · rename_i hgroup
      obtain ⟨level, outer, houter⟩ : ∃ level outer, reader.outer = level :: outer :=
        List.exists_cons_of_ne_nil (by simpa [inGroup] using hgroup)
      simp [atop, Level.atop, houter, Except.map]
    · exact congrArg Except.ok (hpush _)
  · rfl
  · exact congrArg Except.ok (hpush _)

/-- Whether what a reader reads next does not depend on the tokens below: it has started, or its first token
is a class or an escaped character that is being read. -/
def IsCovered (reader : Reader) : Prop :=
  reader.HasStarted ∨ reader.mode = .escape ∨ ∃ classReader, reader.mode = .class classReader

theorem IsCovered.hasStarted (h : reader.IsCovered) (hescape : reader.mode ≠ .escape)
    (hclass : ∀ classReader, reader.mode ≠ .class classReader) : reader.HasStarted := by
  rcases h with hstarted | hmode | ⟨classReader, hmode⟩
  · exact hstarted
  · exact absurd hmode hescape
  · exact absurd hmode (hclass classReader)

/-- What one character does depends on whether there are tokens below, not on which. -/
theorem step_atop (hcovered : reader.IsCovered) (c : Char) (rest : List Char) :
    (reader.atop base).step c rest = (reader.step c rest).map (atop base) := by
  unfold step
  rw [show (reader.atop base).mode = reader.mode from rfl]
  split
  · exact stepText_atop base reader c rest
  · exact congrArg (fun next : Reader => Except.ok { next with mode := .text, last := some c })
      (atop_push base reader (.literal c)).symm
  · split
    · rfl
    · have hmode : { (reader.atop base).push .anyRun with mode := .text } =
          ({ reader.push .anyRun with mode := .text } : Reader).atop base :=
        congrArg (fun next : Reader => { next with mode := .text })
          (atop_push base reader .anyRun).symm
      rw [hmode]
      exact stepText_atop base _ c rest
  · rename_i before hmode
    rw [closeStars_atop (hcovered.hasStarted (by simp [hmode]) (by simp [hmode]))]
    generalize reader.closeStars before (some c) = closed
    obtain ⟨closed, slashIsTheirs⟩ := closed
    cases slashIsTheirs with
    | true => rfl
    | false => exact stepText_atop base closed c rest
  · rename_i classReader _
    cases classReader.step c with
    | error fault => rfl
    | ok read =>
      cases read with
      | inl classReader => rfl
      | inr token =>
        exact congrArg (fun next : Reader => Except.ok { next with mode := .text, last := some c })
          (atop_push base reader token).symm

/-- The tokens of a finished reader stand after those below. -/
theorem finish_atop (hcovered : reader.IsCovered) :
    (reader.atop base).finish = reader.finish.map (base.reverse ++ ·) := by
  have hend (r : Reader) : (if (r.atop base).inGroup then throw Fault.unclosedGroup else
      pure (r.atop base).level.tokens.reverse : Except Fault (List Token)) =
      (if r.inGroup then throw Fault.unclosedGroup else
        pure r.level.tokens.reverse : Except Fault (List Token)).map (base.reverse ++ ·) := by
    rw [atop_inGroup]
    cases houter : r.outer <;> simp [inGroup, atop, Level.atop, houter] <;> rfl
  unfold finish
  rw [show (reader.atop base).mode = reader.mode from rfl]
  split
  · exact hend reader
  · rfl
  · rw [← atop_push]
    exact hend (reader.push .anyRun)
  · rename_i before hmode
    rw [closeStars_atop (hcovered.hasStarted (by simp [hmode]) (by simp [hmode]))]
    exact hend (reader.closeStars before none).1
  · rfl

/-- Any character but a star covers the tokens below; stars leave them covered. -/
theorem isCovered_of_stepText {next : Reader} {c : Char} {rest : List Char}
    (hstar : c = '*' → reader.HasStarted) (h : reader.stepText c rest = .ok next) :
    next.IsCovered := by
  have hpush (token : Token) : HasStarted (push { reader with last := some c } token) :=
    hasStarted_push _ token
  unfold stepText at h
  split at h
  · cases h
    exact .inl (hpush .anyByte)
  · cases h
    exact .inl (hstar rfl)
  · split at h
    · cases h
      exact .inl (hpush (.literal '['))
    · split at h
      · cases h
        exact .inl (hpush (.literal '['))
      · cases h
        exact .inr (.inr ⟨_, rfl⟩)
  · cases h
    exact .inl (.inr (List.cons_ne_nil _ _))
  · split at h
    · cases h
    · rename_i level outer _
      cases h
      exact .inl (hasStarted_push { reader with last := some '\x7d', level, outer } _)
  · split at h
    · rename_i hgroup
      cases h
      exact .inl (.inr (by simpa [inGroup] using hgroup))
    · cases h
      exact .inl (hpush (.literal ','))
  · cases h
    exact .inr (.inl rfl)
  · cases h
    exact .inl (hpush (.literal c))

/-- Two stars leave the open groups as they are. -/
theorem outer_closeStars (reader : Reader) (before next : Option Char) :
    (reader.closeStars before next).1.outer = reader.outer ∧
      (reader.closeStars before next).1.mode = .text := by
  rw [closeStars_eq]
  generalize starsMeaning _ _ _ _ = meaning
  cases meaning <;> exact ⟨rfl, rfl⟩

/-- What is covered stays covered. -/
theorem isCovered_of_step {next : Reader} {c : Char} {rest : List Char} (hcovered : reader.IsCovered)
    (h : reader.step c rest = .ok next) : next.IsCovered := by
  unfold step at h
  split at h
  · rename_i hmode
    exact isCovered_of_stepText
      (fun _ => hcovered.hasStarted (by simp [hmode]) (by simp [hmode])) h
  · cases h
    exact .inl (hasStarted_push reader (.literal c))
  · rename_i before hmode
    split at h
    · cases h
      exact .inl (hcovered.hasStarted (by simp [hmode]) (by simp [hmode]))
    · have hrun : HasStarted { reader.push .anyRun with mode := .text } :=
        hasStarted_push reader .anyRun
      exact isCovered_of_stepText (fun _ => hrun) h
  · rename_i before hmode
    have hclosed : (reader.closeStars before (some c)).1.HasStarted := by
      rcases hcovered.hasStarted (by simp [hmode]) (by simp [hmode]) with hground | houter
      · exact .inl ((advances_closeStars reader before c).tokens.ne_nil hground)
      · exact .inr (by rwa [(reader.outer_closeStars before (some c)).1])
    split at h
    · rename_i closed hclose
      rw [hclose] at hclosed
      cases h
      exact .inl hclosed
    · rename_i closed hclose
      rw [hclose] at hclosed
      exact isCovered_of_stepText (fun _ => hclosed) h
  · rename_i classReader _
    cases hstep : classReader.step c with
    | error fault => simp [hstep, bind, Except.bind] at h
    | ok read =>
      cases read with
      | inl classReader =>
        simp only [hstep, bind, Except.bind, Except.ok.injEq] at h
        subst h
        exact .inr (.inr ⟨_, rfl⟩)
      | inr token =>
        simp only [hstep, bind, Except.bind, Except.ok.injEq] at h
        subst h
        exact .inl (hasStarted_push reader token)

/-- What was read before covered tokens changes nothing about how a text is read. -/
theorem read_atop (hcovered : reader.IsCovered) (text : List Char) :
    (reader.atop base).read text = (reader.read text).map (base.reverse ++ ·) := by
  induction text generalizing reader with
  | nil => exact finish_atop hcovered
  | cons c rest ih =>
    rw [read_cons, read_cons, step_atop hcovered]
    cases hstep : reader.step c rest with
    | error fault => rfl
    | ok next => exact ih (isCovered_of_step hcovered hstep)

end Frame

end Reader

end TreeLayout.Glob
