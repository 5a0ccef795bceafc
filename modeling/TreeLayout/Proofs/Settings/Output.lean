import TreeLayout.Settings.Reader

/-!
# Settings that differ in the output

The settings of the check are read from a document without regard to those of the output, as long as the
latter can be read at all.
-/

namespace TreeLayout.Settings

open Toml (Value)

/-- Whether the output settings of a document can be read, if it has any. -/
def HasOutput (entries : Toml.Entries) : Prop :=
  ∀ value, ("output", value) ∈ entries → ∃ output, readOutput value = .ok output

/-- Whether two texts are documents that differ in nothing but valid settings of the output. -/
def DifferInOutput (text text' : String) : Prop :=
  ∃ entries entries', Toml.parse text = some entries ∧ Toml.parse text' = some entries' ∧
    entries.filter (·.1 ≠ "output") = entries'.filter (·.1 ≠ "output") ∧
    HasOutput entries ∧ HasOutput entries'

/-- Read one entry of the root table. -/
def readEntry (draft : Option ProjectSettings × OutputSettings) (entry : String × Value) :
    Except Mismatch (Option ProjectSettings × OutputSettings) := do
  match entry.1 with
  | "treeguard" => return (some (← readProject entry.2), draft.2)
  | "output" => return (draft.1, ← readOutput entry.2)
  | _ => return draft

/-- Read one entry of the root table, where only the settings of the check matter. -/
def readProjectEntry (draft : Option ProjectSettings) (entry : String × Value) :
    Except Mismatch (Option ProjectSettings) :=
  if entry.1 = "treeguard" then some <$> readProject entry.2 else .ok draft

/-- The settings of the check, which a document must have. -/
def requireProject : Option ProjectSettings → Except Mismatch ProjectSettings
  | some project => .ok project
  | none => .error (.missingField "treeguard")

/-- The settings that have been read, among them those of the check. -/
def requireSettings (draft : Option ProjectSettings × OutputSettings) : Except Mismatch Settings :=
  (requireProject draft.1).map fun project => ⟨project, draft.2⟩

theorem ofEntries_eq_bind (entries : Toml.Entries) :
    ofEntries entries = entries.foldlM readEntry (none, .default) >>= requireSettings := by
  change entries.foldlM readEntry (none, .default) >>= _ = _
  cases entries.foldlM readEntry (none, .default) with
  | error error => rfl
  | ok draft =>
    obtain ⟨project, output⟩ := draft
    cases project <;> rfl

theorem readEntry_fst (draft : Option ProjectSettings × OutputSettings) {entry : String × Value}
    (h : entry.1 ≠ "output") :
    (readEntry draft entry).map Prod.fst = readProjectEntry draft.1 entry := by
  unfold readEntry readProjectEntry
  split
  · rename_i hname
    rw [if_pos hname]
    cases readProject entry.2 <;> rfl
  · rename_i hname
    exact absurd hname h
  · rename_i hname _
    rw [if_neg hname]
    rfl

/-- Output settings that can be read leave those of the check as they are. -/
theorem foldlM_readEntry (draft : Option ProjectSettings × OutputSettings) {entries : Toml.Entries}
    (h : HasOutput entries) :
    (entries.foldlM readEntry draft).map Prod.fst =
      (entries.filter (·.1 ≠ "output")).foldlM readProjectEntry draft.1 := by
  induction entries generalizing draft with
  | nil => rfl
  | cons entry entries ih =>
    have hentries : HasOutput entries := fun value hvalue => h value (List.mem_cons_of_mem entry hvalue)
    rw [List.foldlM_cons]
    by_cases hname : entry.1 = "output"
    · obtain ⟨name, value⟩ := entry
      subst hname
      obtain ⟨output, houtput⟩ := h value List.mem_cons_self
      rw [List.filter_cons_of_neg (by simp), ← ih (draft.1, output) hentries]
      change Except.map Prod.fst ((do return (draft.1, ← readOutput value)) >>= _) = _
      rw [houtput]
      rfl
    · rw [List.filter_cons_of_pos (by simpa using hname), List.foldlM_cons, ← readEntry_fst draft hname]
      cases readEntry draft entry with
      | error error => rfl
      | ok next => exact ih next hentries

theorem ofEntries_map_project {entries : Toml.Entries} (h : HasOutput entries) :
    (ofEntries entries).map project =
      (entries.filter (·.1 ≠ "output")).foldlM readProjectEntry none >>= requireProject := by
  have hfold := foldlM_readEntry (none, OutputSettings.default) h
  dsimp only at hfold
  rw [← hfold, ofEntries_eq_bind]
  cases entries.foldlM readEntry (none, .default) with
  | error error => rfl
  | ok draft =>
    obtain ⟨project, output⟩ := draft
    cases project <;> rfl

/-- The conditions that settings of the check must meet. -/
def accept (project : ProjectSettings) : Except Refusal ProjectSettings :=
  (validate ⟨project, .default⟩).map Settings.project

/-- The conditions on settings are conditions on those of the check. -/
theorem validate_map_project (settings : Settings) :
    settings.validate.map project = accept settings.project := by
  rw [accept, validate, validate]
  dsimp only
  split
  · rfl
  · split
    · rfl
    · generalize (settings.project.exclude.forM _ : Except Refusal PUnit) = accepted
      cases accepted <;> rfl

/-- The settings of the check that a document describes do not depend on those of the output. -/
theorem parse_map_project_eq {text : String} {entries : Toml.Entries}
    (h : Toml.parse text = some entries) :
    (parse text).map project =
      ((ofEntries entries).map project).mapError .mismatch >>= fun project =>
        (accept project).mapError .refused := by
  rw [parse, h]
  dsimp only
  cases ofEntries entries with
  | error error => rfl
  | ok settings =>
    change (settings.validate.mapError Error.refused).map project =
      (accept settings.project).mapError .refused
    rw [← validate_map_project]
    cases settings.validate <;> rfl

/-- Documents that differ in nothing but the output give the same settings of the check, or are refused for
the same reason. -/
theorem parse_map_project {text text' : String} (h : DifferInOutput text text') :
    (parse text).map project = (parse text').map project := by
  obtain ⟨entries, entries', hparse, hparse', hfilter, houtput, houtput'⟩ := h
  rw [parse_map_project_eq hparse, parse_map_project_eq hparse', ofEntries_map_project houtput,
    ofEntries_map_project houtput', hfilter]

end TreeLayout.Settings
