import TreeLayout.Report.Basic
import TreeLayout.Rules.Error
import TreeLayout.Snapshot.Query
import TreeLayout.IgnoreList

/-!
# Checking a tree

Every file needs a rule that allows it, and no path may match a rule that forbids it. A path that
several rules forbid is reported once, for the first of them. Files may be allowed on other grounds
as well, such as an ignore list; that does not lift a prohibition.
-/

namespace TreeLayout

/-- Rules with the paths that each matches in a tree. -/
abbrev Findings := List (Rule × List String)

namespace Findings

/-- The paths that some rule allows. -/
def allowed (findings : Findings) : List String :=
  findings.flatMap fun (rule, paths) => if rule.negated then [] else paths

/-- The forbidden paths, each for the first rule that forbids it; those already `reported` are left
out. -/
def forbiddenBeyond (reported : List String) : List (Rule × String) → List Violation
  | [] => []
  | (rule, path) :: rest =>
    if path ∈ reported then forbiddenBeyond reported rest
    else ⟨path, .forbidden rule.pattern rule.location⟩ :: forbiddenBeyond (path :: reported) rest

/-- The forbidden paths, each for the first rule that forbids it. -/
def forbidden (findings : Findings) : List Violation :=
  forbiddenBeyond [] (findings.flatMap fun (rule, paths) =>
    if rule.negated then paths.map (rule, ·) else [])

end Findings

/-- What the rules alone say about a tree. -/
structure Judgement where
  /-- The files that are neither allowed nor forbidden. -/
  unallowed : List String
  forbidden : List Violation
  filesChecked : Nat
  patternsApplied : Nat
deriving DecidableEq, Repr

namespace Judgement

/-- The report in which only the given files lack permission. -/
def report (judgement : Judgement) (unallowed : List String) : Report where
  violations := unallowed.map (⟨·, .notAllowed⟩) ++ judgement.forbidden
  filesChecked := judgement.filesChecked
  patternsApplied := judgement.patternsApplied

end Judgement

namespace Snapshot

/-- The rules with the paths that each matches; the first pattern that is no glob is the error. -/
def findings (snapshot : Snapshot) (rules : List Rule) : Except Rules.Error Findings :=
  rules.mapM fun rule =>
    match snapshot.pathsMatching rule.pattern with
    | .ok paths => .ok (rule, paths)
    | .error error => .error (.query rule.location error)

/-- What the rules alone say about a tree. -/
def judge (snapshot : Snapshot) (rules : List Rule) : Except Rules.Error Judgement := do
  let findings ← snapshot.findings rules
  let forbidden := findings.forbidden
  let settled := findings.allowed ++ forbidden.map Violation.path
  return {
    unallowed := snapshot.files.filter (· ∉ settled)
    forbidden
    filesChecked := snapshot.files.length
    patternsApplied := rules.length }

/-- Check a tree; files for which `alsoAllowed` holds need no rule that allows them. -/
def checkAllowing (snapshot : Snapshot) (rules : List Rule) (alsoAllowed : String → Bool) :
    Except Rules.Error Report := do
  let judgement ← snapshot.judge rules
  return judgement.report (judgement.unallowed.filter fun file => !alsoAllowed file)

/-- Check a tree. -/
def check (snapshot : Snapshot) (rules : List Rule) : Except Rules.Error Report :=
  snapshot.checkAllowing rules fun _ => false

end Snapshot

/-- Why a tree cannot be checked. -/
inductive CheckError where
  | rules (error : Rules.Error)
  /-- The ignore list was asked about an absolute path. -/
  | rooted (path : RootedPath)
deriving DecidableEq, Repr

/-- Check a tree; files on the ignore list need no rule that allows them. The list is asked only
about files that are neither allowed nor forbidden. -/
def Snapshot.checkIgnoring (snapshot : Snapshot) (rules : List Rule) (ignored : IgnoreList) :
    Except CheckError Report := do
  let judgement ← (snapshot.judge rules).mapError .rules
  let unallowed ← judgement.unallowed.filterM fun file =>
    (return !(← ignored.isIgnored file) : Except RootedPath Bool).mapError .rooted
  return judgement.report unallowed

end TreeLayout
