import TreeLayout.Proofs.Command.Loading
import TreeLayout.Proofs.Report.Records

/-!
# Codes and modes of output

A check ends with a code that tells its verdict: 3 and 2 if there is no report, 1 if there is one with a
violation, 0 if there is one without. How results are written plays no role for it, and what is written
agrees with it.
-/

namespace TreeLayout

open Json (AreObjectLines parse?)

/-- A check with an ignore list has no other failure of the rules than the search for paths. -/
theorem Snapshot.findings_of_checkIgnoring {snapshot : Snapshot} {rules : List Rule}
    {ignored : IgnoreList} {cause : Rules.Error}
    (h : snapshot.checkIgnoring rules ignored = .error (.rules cause)) :
    snapshot.findings rules = .error cause := by
  rw [checkIgnoring] at h
  rcases bind_eq_error_iff.mp h with hjudge | ⟨judgement, -, hfiles⟩
  · obtain ⟨error, herror, hcause⟩ := mapError_eq_error_iff.mp hjudge
    cases hcause
    rw [judge] at herror
    rcases bind_eq_error_iff.mp herror with hfindings | ⟨findings, -, hfindings⟩
    · exact hfindings
    · cases hfindings
  · rcases bind_eq_error_iff.mp hfiles with hfile | ⟨unallowed, -, hreport⟩
    · obtain ⟨file, -, hanswer⟩ := exists_of_filterM_eq_error hfile
      obtain ⟨path, -, hrooted⟩ := mapError_eq_error_iff.mp hanswer
      cases hrooted
    · cases hreport

namespace Project

variable {project : Project} {error : Error}

theorem isMalformedLine_eq_true_iff :
    error.isMalformedLine = true ↔ ∃ location fault, error = .rules (.line location fault) := by
  constructor
  · intro h
    unfold Error.isMalformedLine at h
    split at h
    · exact ⟨_, _, rfl⟩
    · cases h
  · rintro ⟨location, fault, rfl⟩
    rfl

/-- A failure of the search for paths is no malformed line. -/
theorem isMalformedLine_of_findings {cause : Rules.Error}
    (h : project.snapshot.findings project.rules = .error cause) :
    (Error.rules cause).isMalformedLine = false := by
  obtain ⟨front, rule, back, fault, -, -, -, rfl⟩ := Snapshot.findings_eq_error_iff.mp h
  rfl

/-- A check fails on a pattern or on an absolute path, never on a malformed line. -/
theorem isMalformedLine_of_check (h : project.check = .error error) : error.isMalformedLine = false := by
  rw [check] at h
  cases hignored : project.ignored with
  | none =>
    rw [hignored] at h
    obtain ⟨cause, hcause, rfl⟩ := mapError_eq_error_iff.mp h
    exact isMalformedLine_of_findings (Snapshot.checkAllowing_eq_error_iff.mp hcause)
  | some ignored =>
    rw [hignored] at h
    obtain ⟨cause, hcause, rfl⟩ := mapError_eq_error_iff.mp h
    cases cause with
    | rooted path => rfl
    | rules cause => exact isMalformedLine_of_findings (Snapshot.findings_of_checkIgnoring hcause)

end Project

namespace Command

variable {system system' : FileSystem} {target : Target} {color : Option Terminal.ColorChoice}

/-- The report on a project. -/
def verdict (system : FileSystem) (target : Target) : Except Project.Error Report :=
  Project.load system target >>= Project.check

/-- The code of a verdict. -/
def verdictCode : Except Project.Error Report → UInt32
  | .error error => errorCode error
  | .ok report => if report.passed then 0 else 1

theorem code_runCheck_eq (system : FileSystem) (target : Target) (color : Option Terminal.ColorChoice) :
    (runCheck system target color).code = verdictCode (verdict system target) := by
  unfold runCheck verdict
  cases Project.load system target with
  | error error => rfl
  | ok project =>
    change _ = verdictCode project.check
    dsimp only
    cases project.check with
    | error error => cases project.format target <;> rfl
    | ok report =>
      cases project.format target with
      | human => exact code_humanReport color report
      | jsonl => rfl

theorem code_runRules_eq (system : FileSystem) (target : Target) (color : Option Terminal.ColorChoice) :
    (runRules system target color).code =
      match Project.load system target with
      | .error error => errorCode error
      | .ok _ => 0 := by
  unfold runRules
  cases Project.load system target with
  | error error => rfl
  | ok project =>
    dsimp only
    cases project.format target with
    | jsonl => rfl
    | human =>
      dsimp only
      split
      · rfl
      · rfl

section Codes

variable {outcome : Except Project.Error Report}

theorem verdictCode_eq_three_iff : verdictCode outcome = 3 ↔
    ∃ error, outcome = .error error ∧ error.isMalformedLine = true := by
  cases outcome with
  | error error => cases hmalformed : error.isMalformedLine <;> simp [verdictCode, errorCode, hmalformed]
  | ok report => cases hpassed : report.passed <;> simp [verdictCode, hpassed]

theorem verdictCode_eq_two_iff : verdictCode outcome = 2 ↔
    ∃ error, outcome = .error error ∧ error.isMalformedLine = false := by
  cases outcome with
  | error error => cases hmalformed : error.isMalformedLine <;> simp [verdictCode, errorCode, hmalformed]
  | ok report => cases hpassed : report.passed <;> simp [verdictCode, hpassed]

theorem verdictCode_eq_one_iff : verdictCode outcome = 1 ↔
    ∃ report, outcome = .ok report ∧ report.violations ≠ [] := by
  cases outcome with
  | error error => cases hmalformed : error.isMalformedLine <;> simp [verdictCode, errorCode, hmalformed]
  | ok report => cases hviolations : report.violations <;> simp [verdictCode, Report.passed, hviolations]

theorem verdictCode_eq_zero_iff : verdictCode outcome = 0 ↔
    ∃ report, outcome = .ok report ∧ report.violations = [] := by
  cases outcome with
  | error error => cases hmalformed : error.isMalformedLine <;> simp [verdictCode, errorCode, hmalformed]
  | ok report => cases hviolations : report.violations <;> simp [verdictCode, Report.passed, hviolations]

theorem code_runCheck_eq_three_iff : (runCheck system target color).code = 3 ↔
    ∃ location fault, Project.load system target = .error (.rules (.line location fault)) := by
  rw [code_runCheck_eq, verdictCode_eq_three_iff, verdict]
  simp only [bind_eq_error_iff, Project.isMalformedLine_eq_true_iff]
  constructor
  · rintro ⟨error, hload | ⟨project, -, hcheck⟩, location, fault, rfl⟩
    · exact ⟨location, fault, hload⟩
    · cases Project.isMalformedLine_of_check hcheck
  · rintro ⟨location, fault, hload⟩
    exact ⟨_, .inl hload, location, fault, rfl⟩

theorem code_runCheck_eq_two_iff : (runCheck system target color).code = 2 ↔
    (∃ error, Project.load system target = .error error ∧
      ∀ location fault, error ≠ .rules (.line location fault)) ∨
    ∃ project error, Project.load system target = .ok project ∧ project.check = .error error := by
  have hmalformed (error : Project.Error) : error.isMalformedLine = false ↔
      ∀ location fault, error ≠ .rules (.line location fault) := by
    rw [← Bool.not_eq_true, Project.isMalformedLine_eq_true_iff]
    simp only [not_exists, ne_eq]
  rw [code_runCheck_eq, verdictCode_eq_two_iff, verdict]
  simp only [bind_eq_error_iff]
  constructor
  · rintro ⟨error, hload | ⟨project, hload, hcheck⟩, hfalse⟩
    · exact .inl ⟨error, hload, (hmalformed error).mp hfalse⟩
    · exact .inr ⟨project, error, hload, hcheck⟩
  · rintro (⟨error, hload, hfalse⟩ | ⟨project, error, hload, hcheck⟩)
    · exact ⟨error, .inl hload, (hmalformed error).mpr hfalse⟩
    · exact ⟨error, .inr ⟨project, hload, hcheck⟩, Project.isMalformedLine_of_check hcheck⟩

theorem exists_verdict_eq_ok_iff {p : Report → Prop} :
    (∃ report, verdict system target = .ok report ∧ p report) ↔
      ∃ project report, Project.load system target = .ok project ∧ project.check = .ok report ∧
        p report := by
  simp only [verdict, bind_eq_ok_iff]
  constructor
  · rintro ⟨report, ⟨project, hload, hcheck⟩, hreport⟩
    exact ⟨project, report, hload, hcheck, hreport⟩
  · rintro ⟨project, report, hload, hcheck, hreport⟩
    exact ⟨report, ⟨project, hload, hcheck⟩, hreport⟩

theorem code_runCheck_eq_one_iff : (runCheck system target color).code = 1 ↔
    ∃ project report, Project.load system target = .ok project ∧ project.check = .ok report ∧
      report.violations ≠ [] := by
  rw [code_runCheck_eq, verdictCode_eq_one_iff, exists_verdict_eq_ok_iff]

theorem code_runCheck_eq_zero_iff : (runCheck system target color).code = 0 ↔
    ∃ project report, Project.load system target = .ok project ∧ project.check = .ok report ∧
      report.violations = [] := by
  rw [code_runCheck_eq, verdictCode_eq_zero_iff, exists_verdict_eq_ok_iff]

end Codes

/-- The code of a command does not depend on how its results are written. -/
theorem code_run_of_load {target' : Target}
    (h : (Project.load system' target').map Project.withoutOutput =
      (Project.load system target).map Project.withoutOutput)
    (action : Action) (color color' : Option Terminal.ColorChoice) :
    (run system' ⟨action, target', color'⟩).code = (run system ⟨action, target, color⟩).code := by
  cases action with
  | check =>
    have hverdict (system : FileSystem) (target : Target) : verdict system target =
        (Project.load system target).map Project.withoutOutput >>= Project.check := by
      rw [verdict]
      cases Project.load system target <;> rfl
    rw [run, run]
    dsimp only
    rw [code_runCheck_eq, code_runCheck_eq, hverdict, hverdict, h]
  | rules =>
    rw [run, run]
    dsimp only
    rw [code_runRules_eq, code_runRules_eq]
    cases hload : Project.load system target with
    | error error =>
      cases hload' : Project.load system' target' with
      | error error' =>
        rw [hload, hload'] at h
        cases h
        rfl
      | ok project' =>
        rw [hload, hload'] at h
        cases h
    | ok project =>
      cases hload' : Project.load system' target' with
      | error error' =>
        rw [hload, hload'] at h
        cases h
      | ok project' => rfl

/-- A listing that fails has failed to load the project, and so does a check. -/
theorem runCheck_eq_of_runRules (color : Option Terminal.ColorChoice)
    {color' : Option Terminal.ColorChoice} (h : (runRules system target color').code ≠ 0) :
    runCheck system target color = runRules system target color' := by
  rw [code_runRules_eq] at h
  unfold runCheck runRules
  cases hload : Project.load system target with
  | error error => rfl
  | ok project =>
    rw [hload] at h
    exact absurd rfl h

section Output

variable {project : Project} {error : Project.Error} {report : Report}

theorem runCheck_of_load_error (h : Project.load system target = .error error) :
    runCheck system target color = failed "" error := by
  unfold runCheck
  rw [h]

theorem exists_runCheck_of_check_error (color : Option Terminal.ColorChoice)
    (hload : Project.load system target = .ok project) (hcheck : project.check = .error error) :
    ∃ written, runCheck system target color = failed written error := by
  unfold runCheck
  rw [hload]
  dsimp only
  rw [hcheck]
  cases project.format target with
  | human => exact ⟨_, rfl⟩
  | jsonl => exact ⟨_, rfl⟩

theorem runCheck_of_human (hload : Project.load system target = .ok project)
    (hformat : project.format target = .human) (hcheck : project.check = .ok report) :
    runCheck system target color = humanReport project color report := by
  unfold runCheck
  rw [hload]
  dsimp only
  rw [hformat, hcheck]

theorem runCheck_of_jsonl (hload : Project.load system target = .ok project)
    (hformat : project.format target = .jsonl) (hcheck : project.check = .ok report) :
    runCheck system target color = recordsReport report := by
  unfold runCheck
  rw [hload]
  dsimp only
  rw [hformat, hcheck]

theorem errorCode_ne_one (error : Project.Error) : errorCode error ≠ 1 := by
  rw [errorCode]
  cases error.isMalformedLine <;> decide

theorem stdout_runCheck_of_code
    (h : (runCheck system target color).code = 2 ∨ (runCheck system target color).code = 3) :
    (runCheck system target color).stdout = "" := by
  rw [code_runCheck_eq_two_iff, code_runCheck_eq_three_iff] at h
  rcases h with (⟨error, hload, -⟩ | ⟨project, error, hload, hcheck⟩) | ⟨location, fault, hload⟩
  · rw [runCheck_of_load_error hload]
    rfl
  · obtain ⟨written, hrun⟩ := exists_runCheck_of_check_error color hload hcheck
    rw [hrun]
    rfl
  · rw [runCheck_of_load_error hload]
    rfl

/-- A command that fails writes nothing but the error. -/
theorem stdout_run_of_code {action : Action}
    (h : (run system ⟨action, target, color⟩).code = 2 ∨ (run system ⟨action, target, color⟩).code = 3) :
    (run system ⟨action, target, color⟩).stdout = "" := by
  cases action with
  | check => exact stdout_runCheck_of_code h
  | rules =>
    change (runRules system target color).code = 2 ∨ (runRules system target color).code = 3 at h
    change (runRules system target color).stdout = ""
    have hcode : (runRules system target color).code ≠ 0 := by
      rcases h with h | h <;> rw [h] <;> decide
    rw [← runCheck_eq_of_runRules color hcode] at h ⊢
    exact stdout_runCheck_of_code h

/-- A check that ends with 0 or 1 has a report. -/
theorem exists_check_of_code (hload : Project.load system target = .ok project)
    (h : (runCheck system target color).code = 0 ∨ (runCheck system target color).code = 1) :
    ∃ report, project.check = .ok report := by
  rcases h with h | h
  · obtain ⟨other, report, hother, hcheck, -⟩ := code_runCheck_eq_zero_iff.mp h
    cases hload.symm.trans hother
    exact ⟨report, hcheck⟩
  · obtain ⟨other, report, hother, hcheck, -⟩ := code_runCheck_eq_one_iff.mp h
    cases hload.symm.trans hother
    exact ⟨report, hcheck⟩

/-- Records of a report end with one that tells whether the check has passed. -/
theorem exists_lines_runCheck (hload : Project.load system target = .ok project)
    (hformat : project.format target = .jsonl)
    (h : (runCheck system target color).code = 0 ∨ (runCheck system target color).code = 1) :
    ∃ front last totals, AreObjectLines (front ++ [last]) (runCheck system target color).stdout ∧
      (parse? last).bind Report.Totals.ofValue? = some totals ∧
      (totals.passed = true ↔ (runCheck system target color).code = 0) := by
  obtain ⟨report, hcheck⟩ := exists_check_of_code hload h
  obtain ⟨front, last, hlines, -, -, hlast⟩ := report.exists_lines
  rw [runCheck_of_jsonl hload hformat hcheck]
  refine ⟨front, last, _, hlines, hlast, ?_⟩
  rw [recordsReport]
  dsimp only
  cases report.passed <;> decide

theorem join_ne_empty {text : String} {texts : List String} (h : text ∈ texts) (hne : text ≠ "") :
    String.join texts ≠ "" := by
  induction texts with
  | nil => cases h
  | cons first texts ih =>
    rw [String.join_cons, ne_eq, String.append_eq_empty_iff, not_and]
    intro hfirst
    rcases List.mem_cons.mp h with rfl | htexts
    · exact absurd hfirst hne
    · exact ih htexts

/-- Painted text is not empty if a piece of it is not. -/
theorem write_ne_empty {content : String} {pieces : List Terminal.Piece}
    (h : .text content ∈ pieces) (hne : content ≠ "") (choice : Terminal.ColorChoice) :
    Terminal.write choice pieces ≠ "" := by
  rw [Terminal.write]
  split
  · exact join_ne_empty (List.mem_map.mpr ⟨_, h, rfl⟩) hne
  · exact join_ne_empty (List.mem_map.mpr ⟨_, h, rfl⟩) hne

/-- For people a check writes its report if the report has a violation, and nothing otherwise. -/
theorem stdout_runCheck_eq_empty_iff
    (h : ∀ project, Project.load system target = .ok project → project.format target = .human) :
    (runCheck system target color).stdout = "" ↔ (runCheck system target color).code ≠ 1 := by
  cases hload : Project.load system target with
  | error error =>
    rw [runCheck_of_load_error hload]
    exact iff_of_true rfl (errorCode_ne_one error)
  | ok project =>
    cases hcheck : project.check with
    | error error =>
      obtain ⟨written, hrun⟩ := exists_runCheck_of_check_error color hload hcheck
      rw [hrun]
      exact iff_of_true rfl (errorCode_ne_one error)
    | ok report =>
      rw [runCheck_of_human hload (h project hload) hcheck, humanReport]
      cases hpassed : report.passed with
      | true =>
        have hcode : (0 : UInt32) ≠ 1 := by decide
        exact iff_of_true rfl hcode
      | false =>
        have hpieces : .text "ERROR:" ∈ report.pieces := by
          simp [Report.pieces, hpassed]
        exact iff_of_false (write_ne_empty hpieces (by decide) _) fun hne => hne rfl

end Output

/-- The code of a check tells whether the project can be loaded, whether it can be checked, and whether the
report has a violation. It is the same in every format and colour, whether the command line chooses them or
a settings file that is neither the rules file nor an ignore file that is read. A listing that fails fails
as the check does, a command that fails writes no result, and the results of a check agree with its
code. -/
theorem codes_and_modes_agree (system : FileSystem) (target : Target) (color : Option Terminal.ColorChoice) :
    ((runCheck system target color).code = 3 ↔
      ∃ location fault, Project.load system target = .error (.rules (.line location fault))) ∧
    ((runCheck system target color).code = 2 ↔
      (∃ error, Project.load system target = .error error ∧
        ∀ location fault, error ≠ .rules (.line location fault)) ∨
      ∃ project error, Project.load system target = .ok project ∧ project.check = .error error) ∧
    ((runCheck system target color).code = 1 ↔ ∃ project report,
      Project.load system target = .ok project ∧ project.check = .ok report ∧ report.violations ≠ []) ∧
    ((runCheck system target color).code = 0 ↔ ∃ project report,
      Project.load system target = .ok project ∧ project.check = .ok report ∧ report.violations = []) ∧
    (∀ action format color',
      (run system ⟨action, { target with format }, color'⟩).code = (run system ⟨action, target, color⟩).code) ∧
    (∀ system' place, Project.OutputVaries system system' target place →
      Project.ReadsNoIgnoreFileAt system target place → ∀ action format color',
        (run system' ⟨action, { target with format }, color'⟩).code =
          (run system ⟨action, target, color⟩).code) ∧
    (∀ color', (runRules system target color').code ≠ 0 →
      (runCheck system target color).code = (runRules system target color').code ∧
        (runCheck system target color).stderr = (runRules system target color').stderr) ∧
    (∀ action, (run system ⟨action, target, color⟩).code = 2 ∨ (run system ⟨action, target, color⟩).code = 3 →
      (run system ⟨action, target, color⟩).stdout = "") ∧
    (∀ project, Project.load system target = .ok project → project.format target = .jsonl →
      (runCheck system target color).code = 0 ∨ (runCheck system target color).code = 1 →
        ∃ front last totals, AreObjectLines (front ++ [last]) (runCheck system target color).stdout ∧
          (parse? last).bind Report.Totals.ofValue? = some totals ∧
          (totals.passed = true ↔ (runCheck system target color).code = 0)) ∧
    ((∀ project, Project.load system target = .ok project → project.format target = .human) →
      ((runCheck system target color).stdout = "" ↔ (runCheck system target color).code ≠ 1)) := by
  refine ⟨code_runCheck_eq_three_iff, code_runCheck_eq_two_iff, code_runCheck_eq_one_iff,
    code_runCheck_eq_zero_iff, ?_, ?_, ?_, fun _ => stdout_run_of_code,
    fun _ => exists_lines_runCheck, stdout_runCheck_eq_empty_iff⟩
  · intro action format color'
    have hload : (Project.load system { target with format }).map Project.withoutOutput =
        (Project.load system target).map Project.withoutOutput := rfl
    exact code_run_of_load hload action color color'
  · intro system' place hvaries hignore action format color'
    have hload : (Project.load system' { target with format }).map Project.withoutOutput =
        (Project.load system target).map Project.withoutOutput := hvaries.load_map_withoutOutput hignore
    exact code_run_of_load hload action color color'
  · intro color' hcode
    rw [runCheck_eq_of_runRules color hcode]
    exact ⟨rfl, rfl⟩

/-- Settings in which only the colour is left open. -/
def settingsText (color : String) : String :=
  "treeguard.version = \"1\"\noutput.color = \"" ++ color ++ "\"\n"

/-- A tree whose ignore file is a link to its settings file, and with a file that is named as a line of
these settings. -/
def linkedTree (color : String) : FileTree :=
  .link ".gitignore" "treeguard.toml" <|
  .file ".treeguard" ".*\n*.toml\n".toUTF8 <|
  .file "output.color = \"auto\"" .empty <|
  .file "treeguard.toml" (settingsText color).toUTF8 .empty

/-- A check of the linked tree, with the ignore file or without it. -/
def linkedTarget (format : OutputFormat) (gitignore : Bool) : Target := ⟨".", none, some format, gitignore⟩

/-- The snapshot of the linked tree. -/
def linkedSnapshot : Snapshot where
  entries := [⟨".gitignore", .file⟩, ⟨".treeguard", .file⟩, ⟨"output.color = \"auto\"", .file⟩,
    ⟨"treeguard.toml", .file⟩]

/-- The rules of the linked tree. -/
def linkedRules : List Rule :=
  [⟨⟨".*", false⟩, ⟨".treeguard", 1⟩⟩, ⟨⟨"*.toml", false⟩, ⟨".treeguard", 2⟩⟩]

/-- The linked tree as a project. -/
def linkedProject (color : Terminal.ColorChoice) (ignored : Option IgnoreList) : Project :=
  ⟨⟨⟨"1", none, false, []⟩, ⟨.human, color⟩⟩, "./.treeguard", linkedSnapshot, linkedRules, ignored⟩

/-- The settings of the linked tree as an ignore list. -/
def linkedIgnoreList (color : String) : IgnoreList where
  lines := ["treeguard.version = \"1\"", "output.color = \"" ++ color ++ "\""].map fun line =>
    ⟨⟨"**/" ++ line, .leadingStars :: line.toList.map .literal⟩, false, false⟩

theorem capture_linkedTree (text : String) :
    FileSystem.capture (linkedTree text) "." [] = .ok linkedSnapshot := by
  have hwalk : (linkedTree text).walk [] ['.'] ['.'] = linkedSnapshot.entries := rfl
  have hsorted : Snapshot.ofEntries linkedSnapshot.entries = linkedSnapshot :=
    Snapshot.ofEntries_of_pairwise (by decide +kernel)
  change Except.ok (Snapshot.ofEntries ((linkedTree text).walk [] ['.'] ['.'])) = _
  rw [hwalk, hsorted]

theorem rulesPath_linkedTree :
    String.ofList (Text.joinPath ".".toList Settings.defaultRulesFile.toList) = "./.treeguard" := rfl

theorem load_linkedTree {text : String} {color : Terminal.ColorChoice} {format : OutputFormat}
    {gitignore : Bool} {ignored : Option IgnoreList}
    (hsettings : Settings.find (linkedTree text) "." = .ok ⟨⟨"1", none, false, []⟩, ⟨.human, color⟩⟩)
    (hrules : FileSystem.readText (linkedTree text) "./.treeguard" = .ok ".*\n*.toml\n")
    (hignored : (if gitignore || false then IgnoreList.load (linkedTree text) "." else .ok none) =
      .ok ignored) :
    Project.load (linkedTree text) (linkedTarget format gitignore) =
      .ok (linkedProject color ignored) := by
  have hname : Project.sourceName "./.treeguard" = ".treeguard" := rfl
  have hcompile (matcher : Matcher) :
      (Rules.compile ".treeguard" ".*\n*.toml\n" matcher).outcome = .ok linkedRules := rfl
  have hread : Project.readRules (linkedTree text) "./.treeguard" = .ok ".*\n*.toml\n" := by
    rw [Project.readRules, hrules]
  refine Project.load_eq_ok_iff.mpr
    ⟨hsettings, rulesPath_linkedTree.symm, capture_linkedTree text, ⟨".*\n*.toml\n", hread, ?_⟩, hignored⟩
  rw [linkedProject]
  dsimp only
  rw [hname]
  exact hcompile _

theorem readText_linkedTree : FileSystem.readText (linkedTree "never") "./.treeguard" = .ok ".*\n*.toml\n" ∧
    FileSystem.readText (linkedTree "auto") "./.treeguard" = .ok ".*\n*.toml\n" := by decide +kernel

theorem find_linkedTree :
    Settings.find (linkedTree "never") "." = .ok ⟨⟨"1", none, false, []⟩, ⟨.human, .never⟩⟩ ∧
      Settings.find (linkedTree "auto") "." = .ok ⟨⟨"1", none, false, []⟩, ⟨.human, .auto⟩⟩ := by
  decide +kernel

/-- The entries of the settings of the linked tree. -/
def linkedEntries (color : String) : Toml.Entries :=
  [("treeguard", .table .dotted [("version", .string "1")]),
    ("output", .table .dotted [("color", .string color)])]

theorem hasOutput_linkedEntries {color : String} {output : OutputSettings}
    (h : Settings.readOutput (.table .dotted [("color", .string color)]) = .ok output) :
    Settings.HasOutput (linkedEntries color) := by
  intro value hvalue
  simp only [linkedEntries, List.mem_cons, Prod.mk.injEq, List.not_mem_nil, or_false] at hvalue
  rcases hvalue with ⟨hkey, -⟩ | ⟨-, rfl⟩
  · exact absurd hkey (by decide)
  · exact ⟨output, h⟩

/-- The settings of the linked tree differ in the colour only. -/
theorem differInOutput_settingsText :
    Settings.DifferInOutput (settingsText "never") (settingsText "auto") := by
  have hnever : Toml.parse (settingsText "never") = some (linkedEntries "never") := rfl
  have hauto : Toml.parse (settingsText "auto") = some (linkedEntries "auto") := rfl
  exact ⟨_, _, hnever, hauto, rfl, hasOutput_linkedEntries rfl, hasOutput_linkedEntries rfl⟩

/-- The settings file of the linked tree is not its rules file. -/
theorem realPath?_linkedTree :
    FileSystem.realPath? (linkedTree "never") (Settings.pathIn ".") = some "treeguard.toml" ∧
      FileSystem.realPath? (linkedTree "never") "./.treeguard" = some ".treeguard" := by decide +kernel

theorem outputVaries_linkedTree (format : OutputFormat) (gitignore : Bool) :
    Project.OutputVaries (linkedTree "never") (linkedTree "auto") (linkedTarget format gitignore)
      "treeguard.toml" := by
  have hread : FileSystem.readText (linkedTree "never") (Settings.pathIn ".") = .ok (settingsText "never") := by
    decide +kernel
  refine ⟨realPath?_linkedTree.1, ⟨_, _, hread, differInOutput_settingsText, rfl⟩, ?_⟩
  intro settings hsettings hplace
  cases find_linkedTree.1.symm.trans hsettings
  have hpath : (linkedTarget format gitignore).config.getD (Settings.rulesPath
      ⟨⟨"1", none, false, []⟩, ⟨.human, .never⟩⟩ (linkedTarget format gitignore).directory) =
        "./.treeguard" := rulesPath_linkedTree
  rw [hpath, realPath?_linkedTree.2] at hplace
  exact absurd hplace (by decide)

theorem check_linkedProject (color : Terminal.ColorChoice) :
    (linkedProject color (some (linkedIgnoreList "never"))).check =
      .ok ⟨[⟨"output.color = \"auto\"", .notAllowed⟩], 4, 2⟩ ∧
    (linkedProject color (some (linkedIgnoreList "auto"))).check = .ok ⟨[], 4, 2⟩ ∧
    (linkedProject color none).check = .ok ⟨[⟨"output.color = \"auto\"", .notAllowed⟩], 4, 2⟩ := by
  have hnever : linkedSnapshot.checkIgnoring linkedRules (linkedIgnoreList "never") =
      .ok ⟨[⟨"output.color = \"auto\"", .notAllowed⟩], 4, 2⟩ := by decide +kernel
  have hauto : linkedSnapshot.checkIgnoring linkedRules (linkedIgnoreList "auto") = .ok ⟨[], 4, 2⟩ := by
    decide +kernel
  have hnone : linkedSnapshot.check linkedRules =
      .ok ⟨[⟨"output.color = \"auto\"", .notAllowed⟩], 4, 2⟩ := by decide +kernel
  simp only [Project.check, linkedProject, hnever, hauto, hnone]
  exact ⟨rfl, rfl, rfl⟩

/-- Where the ignore file is a link to the settings file, the colour that the settings choose is a line of
the ignore list, and a check ends with another code. -/
theorem code_runCheck_linkedTree :
    Project.OutputVaries (linkedTree "never") (linkedTree "auto") (linkedTarget .jsonl true)
      "treeguard.toml" ∧
    (runCheck (linkedTree "never") (linkedTarget .jsonl true) none).code = 1 ∧
    (runCheck (linkedTree "auto") (linkedTarget .jsonl true) none).code = 0 := by
  have hnever : IgnoreList.load (linkedTree "never") "." = .ok (some (linkedIgnoreList "never")) := by
    decide +kernel
  have hauto : IgnoreList.load (linkedTree "auto") "." = .ok (some (linkedIgnoreList "auto")) := by
    decide +kernel
  have hloadNever : Project.load (linkedTree "never") (linkedTarget .jsonl true) =
      .ok (linkedProject .never (some (linkedIgnoreList "never"))) :=
    load_linkedTree find_linkedTree.1 readText_linkedTree.1 hnever
  have hloadAuto : Project.load (linkedTree "auto") (linkedTarget .jsonl true) =
      .ok (linkedProject .auto (some (linkedIgnoreList "auto"))) :=
    load_linkedTree find_linkedTree.2 readText_linkedTree.2 hauto
  exact ⟨outputVaries_linkedTree .jsonl true,
    code_runCheck_of_check none hloadNever (check_linkedProject .never).1,
    code_runCheck_of_check none hloadAuto (check_linkedProject .auto).2.1⟩

/-- Where the ignore file is not read, the linked tree has the same code with every choice of colour; an
empty tree has no rules. -/
theorem codes_and_modes_agree_linkedTree :
    ((runRules FileTree.empty (linkedTarget .human false) none).code ≠ 0 ∧
      (runCheck FileTree.empty (linkedTarget .human false) none).code =
        (runRules FileTree.empty (linkedTarget .human false) none).code ∧
      (runCheck FileTree.empty (linkedTarget .human false) none).code = 2 ∧
      (runCheck FileTree.empty (linkedTarget .human false) none).stdout = "") ∧
    (Project.OutputVaries (linkedTree "never") (linkedTree "auto") (linkedTarget .jsonl false)
        "treeguard.toml" ∧
      Project.ReadsNoIgnoreFileAt (linkedTree "never") (linkedTarget .jsonl false) "treeguard.toml" ∧
      (runCheck (linkedTree "auto") (linkedTarget .human false) (some .always)).code = 1) ∧
    (∃ front last totals, AreObjectLines (front ++ [last])
        (runCheck (linkedTree "never") (linkedTarget .jsonl false) none).stdout ∧
      (parse? last).bind Report.Totals.ofValue? = some totals ∧ totals.passed = false) ∧
    (runCheck (linkedTree "never") (linkedTarget .human false) none).stdout ≠ "" := by
  have hload (format : OutputFormat) : Project.load (linkedTree "never") (linkedTarget format false) =
      .ok (linkedProject .never none) :=
    load_linkedTree find_linkedTree.1 readText_linkedTree.1 rfl
  have hcheck := (check_linkedProject .never).2.2
  have hempty : Project.load FileTree.empty (linkedTarget .human false) =
    .error (.missingRules "./.treeguard") := rfl
  obtain ⟨-, htwo, -, -, -, -, hrules, hsilent, -, -⟩ :=
    codes_and_modes_agree FileTree.empty (linkedTarget .human false) none
  obtain ⟨-, -, hone, -, -, hvary, -, -, hjsonl, -⟩ :=
    codes_and_modes_agree (linkedTree "never") (linkedTarget .jsonl false) none
  obtain ⟨-, -, hviolated, -, -, -, -, -, -, hhuman⟩ :=
    codes_and_modes_agree (linkedTree "never") (linkedTarget .human false) none
  have hmissing := htwo.mpr (.inl ⟨_, hempty, fun _ _ => nofun⟩)
  have hlisting : (runRules FileTree.empty (linkedTarget .human false) none).code ≠ 0 := by
    rw [code_runRules_eq, hempty]
    decide
  have hcode := hone.mpr ⟨_, _, hload .jsonl, hcheck, List.cons_ne_nil _ _⟩
  have hvaries := outputVaries_linkedTree .jsonl false
  have hunread : Project.ReadsNoIgnoreFileAt (linkedTree "never") (linkedTarget .jsonl false)
      "treeguard.toml" := by
    intro settings hsettings hgitignore
    cases find_linkedTree.1.symm.trans hsettings
    cases hgitignore
  refine ⟨⟨hlisting, (hrules none hlisting).1, hmissing, hsilent .check (.inl hmissing)⟩,
    ⟨hvaries, hunread, ?_⟩, ?_, ?_⟩
  · exact (hvary _ _ hvaries hunread .check (some .human) (some .always)).trans hcode
  · obtain ⟨front, last, totals, hlines, hlast, hpassed⟩ := hjsonl _ (hload .jsonl) rfl (.inr hcode)
    refine ⟨front, last, totals, hlines, hlast, ?_⟩
    rw [← Bool.not_eq_true, hpassed, hcode]
    decide
  · have hmode : ∀ project, Project.load (linkedTree "never") (linkedTarget .human false) = .ok project →
        project.format (linkedTarget .human false) = .human := fun _ _ => rfl
    have hfailed := hviolated.mpr ⟨_, _, hload .human, hcheck, List.cons_ne_nil _ _⟩
    intro hstdout
    exact (hhuman hmode).mp hstdout hfailed

end Command

end TreeLayout
