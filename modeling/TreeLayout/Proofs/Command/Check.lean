import TreeLayout.Command.Run
import TreeLayout.Proofs.FileTree.Walk
import TreeLayout.Proofs.Report.Passing

/-!
# What a check promises

Where a project can be loaded and its rules hold only globs, a check ends with 0 if all files that
are kept are allowed and no entry that is kept is forbidden, and with 1 otherwise.
-/

namespace TreeLayout

open FileTree

namespace Project

variable {system : FileSystem} {target : Command.Target} {project : Project}

/-- What is known about a project that is loaded: each part comes from the parts before it. -/
structure IsLoaded (project : Project) (system : FileSystem) (target : Command.Target) : Prop where
  settings : Settings.find system target.directory = .ok project.settings
  rulesPath : project.rulesPath =
    target.config.getD (project.settings.rulesPath target.directory)
  snapshot : system.capture target.directory project.settings.project.exclude = .ok project.snapshot
  rules : ∃ text, readRules system project.rulesPath = .ok text ∧
    (Rules.compile (sourceName project.rulesPath) text project.snapshot.matcher).outcome =
      .ok project.rules
  ignored : (if target.gitignore || project.settings.project.gitignore then
    IgnoreList.load system target.directory else .ok none) = .ok project.ignored

/-- A project is loaded exactly if each of its parts is. -/
theorem load_eq_ok_iff : load system target = .ok project ↔ project.IsLoaded system target := by
  simp only [load, bind_eq_ok_iff, mapError_eq_ok_iff]
  constructor
  · intro h
    obtain ⟨settings, hsettings, text, htext, snapshot, hsnapshot, rules, hrules, hignored⟩ := h
    split at hignored
    · rename_i hgitignore
      obtain ⟨ignored, hload, hproject⟩ := bind_eq_ok_iff.mp hignored
      cases hproject
      refine ⟨hsettings, rfl, hsnapshot, ⟨text, htext, hrules⟩, ?_⟩
      rw [if_pos hgitignore]
      exact mapError_eq_ok_iff.mp hload
    · rename_i hgitignore
      cases hignored
      refine ⟨hsettings, rfl, hsnapshot, ⟨text, htext, hrules⟩, ?_⟩
      rw [if_neg hgitignore]
  · intro h
    obtain ⟨hsettings, hrulesPath, hsnapshot, ⟨text, htext, hrules⟩, hignored⟩ := h
    obtain ⟨settings, rulesPath, snapshot, rules, ignored⟩ := project
    replace hrulesPath : rulesPath = target.config.getD (settings.rulesPath target.directory) :=
      hrulesPath
    subst hrulesPath
    refine ⟨settings, hsettings, text, htext, snapshot, hsnapshot, rules, hrules, ?_⟩
    split at hignored
    · rename_i hgitignore
      rw [if_pos hgitignore, bind_eq_ok_iff]
      exact ⟨ignored, mapError_eq_ok_iff.mpr hignored, rfl⟩
    · rename_i hgitignore
      rw [if_neg hgitignore]
      cases hignored
      rfl

/-- Whether a file is on the ignore list of a project. -/
def ignores (project : Project) (file : String) : Bool :=
  match project.ignored with
  | none => false
  | some ignored =>
    match ignored.isIgnored file with
    | .ok answer => answer
    | .error _ => false

/-- A check reports the files that no rule speaks about and that are not ignored, and then the
prohibitions. -/
theorem check_of_allGlobs (hglobs : Snapshot.AllGlobs project.rules)
    (hpaths : ∀ file ∈ project.snapshot.files, [] ∉ Text.segments file.toList) :
    project.check = .ok {
      violations := (project.snapshot.unallowed project.rules project.ignores).map
        (⟨·, .notAllowed⟩) ++ project.snapshot.forbidden project.rules
      filesChecked := project.snapshot.files.length
      patternsApplied := project.rules.length } := by
  have hallowing (alsoAllowed : String → Bool) :
      project.snapshot.checkAllowing project.rules alsoAllowed = _ :=
    Snapshot.checkAllowing_of_allGlobs hglobs alsoAllowed
  cases hignored : project.ignored with
  | none =>
    have hnone : project.ignores = fun _ => false := by
      funext file
      rw [ignores, hignored]
    rw [check, hignored, hnone]
    dsimp only
    rw [Snapshot.check, hallowing]
    rfl
  | some ignored =>
    have hanswers : ∀ file ∈ project.snapshot.files,
        ignored.isIgnored file = .ok (project.ignores file) := by
      intro file hfile
      obtain ⟨answer, hanswer⟩ := ignored.exists_isIgnored (hpaths file hfile)
      rw [ignores, hignored]
      dsimp only
      rw [hanswer]
    rw [check, hignored]
    dsimp only
    rw [Snapshot.checkIgnoring_eq_checkAllowing hanswers, hallowing]
    rfl

/-- Whether every file that is kept is allowed by a rule or ignored, and no entry that is kept is
forbidden by a rule; `top` is the directory of the project, and `globs` are its exclude globs. -/
structure IsInOrder (project : Project) (system : FileSystem) (target : Command.Target)
    (top : FileTree) (globs : List Glob) : Prop where
  allowed : ∀ names, top.Holds names .file → IsKept globs names →
    (∃ rule ∈ project.rules, rule.negated = false ∧ rule.Selects (entryOf names .file)) ∨
      ((target.gitignore || project.settings.project.gitignore) = true ∧
        ∃ ignored, IgnoreList.load system target.directory = .ok (some ignored) ∧
          ignored.isIgnored (entryOf names .file).path = .ok true)
  unforbidden : ∀ names kind, top.Holds names kind → IsKept globs names →
    ∀ rule ∈ project.rules, rule.negated = true → ¬ rule.Selects (entryOf names kind)

/-- A project ignores the files on the list of its directory, if it is asked to. -/
theorem ignores_eq_true_iff (h : project.IsLoaded system target) {file : String} :
    project.ignores file = true ↔
      (target.gitignore || project.settings.project.gitignore) = true ∧
        ∃ ignored, IgnoreList.load system target.directory = .ok (some ignored) ∧
          ignored.isIgnored file = .ok true := by
  have hignored := h.ignored
  rw [ignores]
  split at hignored
  · rename_i hgitignore
    rw [hignored]
    cases hlist : project.ignored with
    | none => simp
    | some ignored =>
      cases hanswer : ignored.isIgnored file with
      | error error => simp [hanswer]
      | ok answer => simp [hanswer, hgitignore]
  · rename_i hgitignore
    cases hlist : project.ignored with
    | none => simp [hgitignore]
    | some ignored => simp [hlist] at hignored

section Walk

variable {top : FileTree} {root : List Char} {globs : List Glob}

/-- A project is in order exactly if there is nothing to report about the snapshot of its
directory. -/
theorem isInOrder_iff (hloaded : project.IsLoaded system target) (hnames : top.HasNames)
    (hsnapshot : project.snapshot = .ofEntries (top.walk globs root root)) :
    project.IsInOrder system target top globs ↔
      project.snapshot.unallowed project.rules project.ignores = [] ∧
        project.snapshot.forbidden project.rules = [] := by
  have hslash : ∀ file ∈ project.snapshot.files, Text.endsInSlash file.toList = false := by
    intro file hfile
    rw [hsnapshot] at hfile
    exact Text.endsInSlash_of_notMem_segments (nil_notMem_segments_of_mem_files hnames hfile)
  rw [Snapshot.unallowed_eq_nil_iff hslash, Snapshot.forbidden_eq_nil_iff, hsnapshot]
  constructor
  · intro h
    refine ⟨?_, ?_⟩
    · intro file hfile
      obtain ⟨names, hholds, hkept, rfl⟩ := (mem_files_walk hnames).mp hfile
      rcases h.allowed names hholds hkept with ⟨rule, hrule, -, hselects⟩ | hignored
      · exact .inl ⟨rule, hrule, hselects⟩
      · exact .inr ((ignores_eq_true_iff hloaded).mpr hignored)
    · intro rule hrule hnegated entry hentry
      obtain ⟨names, kind, hholds, hkept, rfl⟩ := (mem_ofEntries_walk hnames).mp hentry
      exact h.unforbidden names kind hholds hkept rule hrule hnegated
  · intro h
    obtain ⟨hallowed, hunforbidden⟩ := h
    have hentries : ∀ names kind, top.Holds names kind → IsKept globs names →
        ∀ rule ∈ project.rules, rule.negated = true → ¬ rule.Selects (entryOf names kind) := by
      intro names kind hholds hkept rule hrule hnegated
      apply hunforbidden rule hrule hnegated
      exact (mem_ofEntries_walk hnames).mpr ⟨names, kind, hholds, hkept, rfl⟩
    refine ⟨?_, hentries⟩
    intro names hholds hkept
    have hfile := (@mem_files_walk globs root top _ hnames).mpr ⟨names, hholds, hkept, rfl⟩
    rcases hallowed _ hfile with ⟨rule, hrule, hselects⟩ | hignored
    · change rule.Selects (entryOf names .file) at hselects
      -- a rule that selects the file does not forbid, since nothing is forbidden
      cases hnegated : rule.negated with
      | false => exact .inl ⟨rule, hrule, hnegated, hselects⟩
      | true => exact absurd hselects (hentries names .file hholds hkept rule hrule hnegated)
    · exact .inr ((ignores_eq_true_iff hloaded).mp hignored)

end Walk

end Project

namespace Command

variable {system : FileSystem} {target : Target} {project : Project}

theorem code_humanReport (color : Option Terminal.ColorChoice) (report : Report) :
    (humanReport project color report).code = if report.passed then 0 else 1 := by
  rw [humanReport]
  cases report.passed with
  | false => rfl
  | true => rfl

/-- In either format a check that has a report ends with 0 if the report is empty, and with 1
otherwise. -/
theorem code_runCheck_of_check {report : Report} (color : Option Terminal.ColorChoice)
    (hload : Project.load system target = .ok project) (hcheck : project.check = .ok report) :
    (runCheck system target color).code = if report.passed then 0 else 1 := by
  unfold runCheck
  rw [hload]
  dsimp only
  rw [hcheck]
  cases project.format target with
  | human => exact code_humanReport color report
  | jsonl =>
    dsimp only
    rw [recordsReport]

/-- A tree with an ignored directory, and with a file that version control keeps for itself. -/
def sampleTree : FileTree := build ["target/app", "src/main.rs", ".git/config"]
  [(".treeguard", "*\nsrc/*.rs\n!**/*.log\n".toUTF8), (".gitignore", "target/\n".toUTF8)] []

/-- A check of the sample tree with its ignore list. -/
def sampleTarget : Target := ⟨".", none, some .jsonl, true⟩

/-- The sample tree as a project. -/
def sampleProject : Project where
  settings := .default
  rulesPath := "./.treeguard"
  snapshot := .ofEntries (sampleTree.walk [] ['.'] ['.'])
  rules := [⟨⟨"*", false⟩, ⟨".treeguard", 1⟩⟩, ⟨⟨"src/*.rs", false⟩, ⟨".treeguard", 2⟩⟩,
    ⟨⟨"**/*.log", true⟩, ⟨".treeguard", 3⟩⟩]
  ignored := some ⟨[⟨⟨"**/target", .leadingStars :: "target".toList.map .literal⟩, false, true⟩]⟩

theorem load_sampleTree : Project.load sampleTree sampleTarget = .ok sampleProject := by
  have hlist : IgnoreList.ofFile "./.gitignore" "target/\n".toUTF8 =
      .ok ⟨[⟨⟨"**/target", .leadingStars :: "target".toList.map .literal⟩, false, true⟩]⟩ := by
    decide +kernel
  refine Project.load_eq_ok_iff.mpr ⟨rfl, rfl, rfl, ⟨"*\nsrc/*.rs\n!**/*.log\n", rfl, rfl⟩, ?_⟩
  change some <$> IgnoreList.ofFile "./.gitignore" "target/\n".toUTF8 = _
  rw [hlist]
  rfl

/-- The snapshot of the sample tree; its walk is in order already. -/
theorem snapshot_sampleProject : sampleProject.snapshot =
    ⟨[⟨".gitignore", .file⟩, ⟨".treeguard", .file⟩, ⟨"src", .directory⟩, ⟨"src/main.rs", .file⟩,
      ⟨"target", .directory⟩, ⟨"target/app", .file⟩]⟩ :=
  Snapshot.ofEntries_of_pairwise (by decide +kernel)

/-- A check of a project that can be loaded and whose rules hold only globs ends with 0 if all files
that are kept are allowed or ignored and no entry that is kept is forbidden, and with 1 otherwise. -/
theorem code_runCheck (color : Option Terminal.ColorChoice) (hnames : system.tree.HasNames)
    (hload : Project.load system target = .ok project)
    (hglobs : Snapshot.AllGlobs project.rules) :
    ∃ top globs, system.directory? target.directory = some top ∧
      project.settings.project.exclude.mapM Glob.compile = .ok globs ∧
      (project.IsInOrder system target top globs → (runCheck system target color).code = 0) ∧
      (¬ project.IsInOrder system target top globs → (runCheck system target color).code = 1) := by
  have hloaded := Project.load_eq_ok_iff.mp hload
  obtain ⟨top, globs, htop, hexclude, hsnapshot⟩ := exists_of_capture hloaded.snapshot
  have htopNames := hasNames_of_directory? hnames htop
  have hpaths : ∀ file ∈ project.snapshot.files, [] ∉ Text.segments file.toList := by
    intro file hfile
    rw [hsnapshot] at hfile
    exact nil_notMem_segments_of_mem_files htopNames hfile
  have hcode := code_runCheck_of_check color hload (Project.check_of_allGlobs hglobs hpaths)
  rw [Report.passed] at hcode
  refine ⟨top, globs, htop, hexclude, ?_, ?_⟩
  · intro horder
    obtain ⟨hallowed, hforbidden⟩ := (Project.isInOrder_iff hloaded htopNames hsnapshot).mp horder
    rw [hcode, hallowed, hforbidden]
    rfl
  · intro horder
    rw [hcode, if_neg]
    intro hempty
    apply horder
    rw [Project.isInOrder_iff hloaded htopNames hsnapshot]
    simpa using hempty

/-- The sample tree is in order: its files are allowed or ignored, and none is a log. -/
theorem code_runCheck_sampleTree :
    sampleTree.HasNames ∧ Project.load sampleTree sampleTarget = .ok sampleProject ∧
      Snapshot.AllGlobs sampleProject.rules ∧
      (runCheck sampleTree sampleTarget none).code = 0 := by
  have hnames : sampleTree.HasNames := hasNames_build _ _ _
  have hglobs : Snapshot.AllGlobs sampleProject.rules := by
    intro rule hrule
    simp only [sampleProject, List.mem_cons, List.not_mem_nil, or_false] at hrule
    rcases hrule with rfl | rfl | rfl
    · exact ⟨_, rfl⟩
    · exact ⟨_, rfl⟩
    · exact ⟨_, rfl⟩
  refine ⟨hnames, load_sampleTree, hglobs, ?_⟩
  obtain ⟨top, globs, htop, hexclude, horder, -⟩ :=
    code_runCheck none hnames load_sampleTree hglobs
  have htree : FileSystem.directory? sampleTree sampleTarget.directory = some sampleTree := rfl
  have hnone : sampleProject.settings.project.exclude.mapM Glob.compile = .ok [] := rfl
  obtain rfl := Option.some.inj (htree.symm.trans htop)
  obtain rfl := Except.ok.inj (hnone.symm.trans hexclude)
  apply horder
  rw [Project.isInOrder_iff (Project.load_eq_ok_iff.mp load_sampleTree) hnames rfl,
    snapshot_sampleProject]
  decide +kernel

end Command

end TreeLayout
