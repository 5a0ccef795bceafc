import TreeLayout.Glob.Fault

/-!
# Queries about a tree

Rules look at a tree only through a matcher, which lists the paths that a pattern matches or tells
whether there is one. A computation that asks a matcher is a value that holds the queries it issues,
in order, and how it ends; after a failure it issues no further query.
-/

namespace TreeLayout

/-- A question about a tree. -/
inductive Query where
  /-- Which paths match the pattern? -/
  | paths (pattern : String)
  /-- Does any path match the pattern? -/
  | existence (pattern : String)
deriving DecidableEq, Repr

/-- Answers to the questions about one tree. -/
structure Matcher where
  paths : String → Except Glob.Error (List String)
  existence : String → Except Glob.Error Bool

namespace Matcher

/-- The matcher that answers from the list of paths alone. -/
def ofPaths (paths : String → Except Glob.Error (List String)) : Matcher where
  paths
  existence pattern := return !(← paths pattern).isEmpty

end Matcher

/-- A computation that issues queries and ends with a result or an error. -/
structure Inquiry (ε α : Type) where
  queries : List Query
  outcome : Except ε α

namespace Inquiry

variable {ε α β : Type}

/-- End with a result, without a query. -/
protected def pure (a : α) : Inquiry ε α := ⟨[], .ok a⟩

/-- Go on after a result; an error ends the whole computation. -/
protected def bind (first : Inquiry ε α) (next : α → Inquiry ε β) : Inquiry ε β :=
  match first.outcome with
  | .error error => ⟨first.queries, .error error⟩
  | .ok a => ⟨first.queries ++ (next a).queries, (next a).outcome⟩

instance : Monad (Inquiry ε) where
  pure := Inquiry.pure
  bind := Inquiry.bind

instance : LawfulMonad (Inquiry ε) := LawfulMonad.mk' (Inquiry ε)
  (fun ⟨queries, outcome⟩ => by
    cases outcome <;> simp [Functor.map, Inquiry.bind, Inquiry.pure])
  (fun a f => by simp [bind, pure, Inquiry.bind, Inquiry.pure])
  (fun ⟨queries, outcome⟩ f g => by
    cases outcome with
    | error => rfl
    | ok a =>
      simp only [bind, Inquiry.bind]
      cases (f a).outcome <;> simp)

/-- Issue one query, turning a failed answer into an error. -/
def ask (query : Query) (answer : Except Glob.Error α) (onError : Glob.Error → ε) : Inquiry ε α :=
  ⟨[query], answer.mapError onError⟩

/-- A computation without queries. -/
def ofExcept (outcome : Except ε α) : Inquiry ε α := ⟨[], outcome⟩

end Inquiry

end TreeLayout
