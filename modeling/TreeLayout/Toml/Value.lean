import TreeLayout.Decimal.Binary64

/-!
# TOML values

The values of a TOML document. A table remembers how it was defined, because that decides which
later definitions may add to it; its entries keep the order of the document. The parts of a date are
checked when it is read and not kept.
-/

namespace TreeLayout.Toml

/-- How a table was defined. -/
inductive Origin where
  /-- By a header of its own. -/
  | header
  /-- As the parent of a table with a header. -/
  | implied
  /-- By a dotted key. -/
  | dotted
  /-- Within braces. -/
  | braces
deriving DecidableEq, Repr

/-- A value of a document. -/
inductive Value where
  | string (text : String)
  | integer (n : Int)
  | float (x : Decimal.Binary64)
  | boolean (b : Bool)
  | date
  | array (items : List Value)
  | table (origin : Origin) (entries : List (String × Value))
  /-- Tables under repeated headers in double brackets. -/
  | tables (elements : List (List (String × Value)))
deriving Repr

/-- The entries of a table, in the order of the document. -/
abbrev Entries := List (String × Value)

namespace Entries

/-- The entries with a new value for a key that is among them. -/
def replace (key : String) (value : Value) (entries : Entries) : Entries :=
  entries.map fun entry => if entry.1 = key then (key, value) else entry

/-- Change the table at a path from within a table, defining the tables on the way that are missing;
`enter` tells whether a table may be entered, given its origin, which an element of an array of
tables has not, and whether it is the last one. -/
def change (enter : Option Origin → Bool → Bool) (added : Origin) (f : Entries → Option Entries) :
    List String → Entries → Option Entries
  | [], entries => f entries
  | key :: path, entries =>
    match entries.lookup key with
    | none => do return entries ++ [(key, .table added (← change enter added f path []))]
    | some (.table origin inner) =>
      if enter (some origin) path.isEmpty then do
        return entries.replace key (.table origin (← change enter added f path inner))
      else none
    | some (.tables elements) =>
      match elements.reverse with
      | last :: earlier =>
        if enter none path.isEmpty then do
          return entries.replace key
            (.tables (earlier.reverse ++ [← change enter added f path last]))
        else none
      | [] => none
    | some _ => none

/-- Define a value under a dotted key. Tables on the way must themselves come from dotted keys; only
before the last one may a table stand that is implied by a header, or an array of tables. -/
def define (path : List String) (value : Value) (entries : Entries) : Option Entries :=
  match path.reverse with
  | [] => none
  | key :: parents =>
    let enter (origin : Option Origin) (last : Bool) : Bool :=
      origin = some .dotted || (!last && (origin = some .implied || origin = none))
    let add (inner : Entries) : Option Entries :=
      if (inner.lookup key).isSome then none else some (inner ++ [(key, value)])
    entries.change enter .dotted add parents.reverse

/-- Define values under dotted keys, one after another. -/
def defineAll (pairs : List (List String × Value)) (entries : Entries) : Option Entries :=
  pairs.foldlM (fun entries pair => entries.define pair.1 pair.2) entries

/-- Whether the parent of a table with a header may be a table of the given origin. -/
def canHoldHeader (origin : Option Origin) (_ : Bool) : Bool := origin ≠ some .braces

/-- Define a table under a header. A table that was only implied so far is completed, and moves to
the end of its parent. -/
def defineTable (path : List String) (pairs : List (List String × Value)) (entries : Entries) :
    Option Entries :=
  match path.reverse with
  | [] => none
  | key :: parents =>
    let add (inner : Entries) : Option Entries := do
      let base ← match inner.lookup key with
        | none => some []
        | some (.table .implied base) => some base
        | some _ => none
      return inner.filter (·.1 ≠ key) ++ [(key, .table .header (← defineAll pairs base))]
    entries.change canHoldHeader .implied add parents.reverse

/-- Define one more table of an array of tables under a header in double brackets. -/
def defineElement (path : List String) (pairs : List (List String × Value)) (entries : Entries) :
    Option Entries :=
  match path.reverse with
  | [] => none
  | key :: parents =>
    let add (inner : Entries) : Option Entries := do
      let element ← defineAll pairs []
      match inner.lookup key with
      | none => return inner ++ [(key, .tables [element])]
      | some (.tables elements) => return inner.replace key (.tables (elements ++ [element]))
      | some _ => none
    entries.change canHoldHeader .implied add parents.reverse

end Entries

end TreeLayout.Toml
