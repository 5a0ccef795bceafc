import TreeLayout.Proofs.Command.Check
import TreeLayout.Proofs.FileTree.Contents
import TreeLayout.Proofs.Settings.Output

/-!
# Loading a project under other output settings

What is loaded of a project does not depend on what its settings file says about the output, unless this
very file is read once more: as the rules file, or as the ignore file.
-/

namespace TreeLayout

/-- The path of the settings file of a directory. -/
def Settings.pathIn (directory : String) : String :=
  .ofList (Text.joinPath directory.toList Settings.fileName.toList)

/-- The path of the ignore file of a directory. -/
def IgnoreList.pathIn (directory : String) : String :=
  .ofList (Text.joinPath directory.toList IgnoreList.fileName.toList)

namespace Project

variable {system system' : FileSystem} {target : Command.Target} {place : String}

/-- What it means that a project has no settings. -/
def settingsError : AccessError ⊕ Settings.Error → Error
  | .inl error => .unreadable error
  | .inr error => .settings error

/-- Load a project whose settings are known. -/
def loadWith (system : FileSystem) (target : Command.Target) (settings : Settings) :
    Except Error Project := do
  let rulesPath := target.config.getD (settings.rulesPath target.directory)
  let text ← readRules system rulesPath
  let snapshot ← (system.capture target.directory settings.project.exclude).mapError .capture
  let rules ← (Rules.compile (sourceName rulesPath) text snapshot.matcher).outcome.mapError .rules
  let ignored ←
    if target.gitignore || settings.project.gitignore then
      (IgnoreList.load system target.directory).mapError .ignoreList
    else .ok none
  return { settings, rulesPath, snapshot, rules, ignored }

theorem load_eq_bind (system : FileSystem) (target : Command.Target) : load system target =
    (Settings.find system target.directory).mapError settingsError >>= loadWith system target := by
  rw [load]
  cases Settings.find system target.directory with
  | error error => cases error <;> rfl
  | ok settings => rfl

/-- A project of which the output settings are forgotten. -/
def withoutOutput (project : Project) : Project :=
  { project with settings := ⟨project.settings.project, .default⟩ }

/-- Where nothing is said about the output, the same project is loaded otherwise. -/
theorem loadWith_map_withoutOutput (settings : Settings) :
    (loadWith system target settings).map withoutOutput =
      loadWith system target ⟨settings.project, .default⟩ := by
  unfold loadWith
  simp only [map_bind, apply_ite (Except.map withoutOutput)]
  rfl

/-- Whether one file system is another one in which the settings file says something else about the output, but
nothing else, and is not the rules file as well; `place` is where the settings file is. -/
structure OutputVaries (system system' : FileSystem) (target : Command.Target) (place : String) : Prop where
  settingsFile : system.realPath? (Settings.pathIn target.directory) = some place
  texts : ∃ text text', system.readText (Settings.pathIn target.directory) = .ok text ∧
    Settings.DifferInOutput text text' ∧ system' = system.withContents place text'.toUTF8
  rulesFile : ∀ settings, Settings.find system target.directory = .ok settings →
    system.realPath? (target.config.getD (settings.rulesPath target.directory)) ≠ some place

/-- Whether the ignore file that a project reads, if it reads one, is not the file at a place. -/
def ReadsNoIgnoreFileAt (system : FileSystem) (target : Command.Target) (place : String) : Prop :=
  ∀ settings, Settings.find system target.directory = .ok settings →
    (target.gitignore || settings.project.gitignore) = true →
      system.realPath? (IgnoreList.pathIn target.directory) ≠ some place

theorem find_eq_of_readText {text : String}
    (h : system.readText (Settings.pathIn target.directory) = .ok text) :
    Settings.find system target.directory = (Settings.parse text).mapError .inr := by
  have hfile : (system.file? (Settings.pathIn target.directory)).isNone = false := by
    rw [FileSystem.readText_eq_bind] at h
    obtain ⟨contents, hcontents, -⟩ := bind_eq_ok_iff.mp h
    rw [FileSystem.file?_eq_toOption, hcontents]
    rfl
  rw [Settings.pathIn] at h hfile
  rw [Settings.find]
  simp only [hfile, h, Bool.false_eq_true, if_false]

/-- The settings of the check are the same under other output settings. -/
theorem OutputVaries.find_map_project (h : OutputVaries system system' target place) :
    (Settings.find system' target.directory).map Settings.project =
      (Settings.find system target.directory).map Settings.project := by
  obtain ⟨text, text', htext, hdiffer, rfl⟩ := h.texts
  have hparse := Settings.parse_map_project hdiffer
  rw [find_eq_of_readText htext,
    find_eq_of_readText (FileSystem.readText_withContents h.settingsFile text'),
    mapError_map, mapError_map, hparse]

/-- The rest of a project is loaded in the same way under other output settings, unless the settings file
is read again. -/
theorem OutputVaries.loadWith_eq (h : OutputVaries system system' target place)
    (hignore : ReadsNoIgnoreFileAt system target place) {settings : Settings}
    (hsettings : Settings.find system target.directory = .ok settings) :
    loadWith system' target settings = loadWith system target settings := by
  obtain ⟨text, text', htext, hdiffer, rfl⟩ := h.texts
  have hrules : readRules (system.withContents place text'.toUTF8)
      (target.config.getD (settings.rulesPath target.directory)) =
        readRules system (target.config.getD (settings.rulesPath target.directory)) := by
    rw [readRules, readRules, FileSystem.readText_withContents_of_ne (h.rulesFile settings hsettings)]
  have hsnapshot : (system.withContents place text'.toUTF8).capture target.directory
      settings.project.exclude = system.capture target.directory settings.project.exclude :=
    FileSystem.capture_mapFiles _ system target.directory settings.project.exclude
  have hignored (hgitignore : (target.gitignore || settings.project.gitignore) = true) :
      IgnoreList.load (system.withContents place text'.toUTF8) target.directory =
        IgnoreList.load system target.directory := by
    have hfile := FileSystem.file?_withContents_of_ne (hignore settings hsettings hgitignore) text'.toUTF8
    rw [IgnoreList.pathIn] at hfile
    rw [IgnoreList.load, IgnoreList.load]
    simp only [hfile]
  unfold loadWith
  simp only [hrules, hsnapshot]
  by_cases hgitignore : (target.gitignore || settings.project.gitignore) = true
  · simp only [hignored hgitignore]
  · simp only [if_neg hgitignore]

/-- The same project is loaded under other output settings, and loading fails in the same way. -/
theorem OutputVaries.load_map_withoutOutput (h : OutputVaries system system' target place)
    (hignore : ReadsNoIgnoreFileAt system target place) :
    (load system' target).map withoutOutput = (load system target).map withoutOutput := by
  have hproject := h.find_map_project
  rw [load_eq_bind, load_eq_bind, map_bind, map_bind]
  cases hsettings : Settings.find system target.directory with
  | error error =>
    cases hsettings' : Settings.find system' target.directory with
    | error error' =>
      rw [hsettings, hsettings'] at hproject
      cases hproject
      rfl
    | ok settings' =>
      rw [hsettings, hsettings'] at hproject
      cases hproject
  | ok settings =>
    cases hsettings' : Settings.find system' target.directory with
    | error error' =>
      rw [hsettings, hsettings'] at hproject
      cases hproject
    | ok settings' =>
      rw [hsettings, hsettings'] at hproject
      have hsame : settings'.project = settings.project := Except.ok.inj hproject
      change (loadWith system' target settings').map withoutOutput =
        (loadWith system target settings).map withoutOutput
      rw [loadWith_map_withoutOutput, hsame, ← loadWith_map_withoutOutput, h.loadWith_eq hignore hsettings]

end Project

end TreeLayout
