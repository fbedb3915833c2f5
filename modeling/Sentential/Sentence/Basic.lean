import Sentential.Connective

/-!
# Sentences

A sentence of propositional logic is a finite tree over truth constants,
variables, negation and the binary connectives. Variables are identified by
name alone, and any string is a name.
-/

namespace Sentential

/-- A sentence of propositional logic. -/
inductive Sentence where
  | const (value : Bool)
  | var (name : String)
  | neg (body : Sentence)
  | binary (op : Connective) (lhs rhs : Sentence)
deriving DecidableEq, Repr

namespace Sentence

/-- The immediate parts of a sentence, from left to right. -/
def children : Sentence → List Sentence
  | .const _ | .var _ => []
  | .neg body => [body]
  | .binary _ lhs rhs => [lhs, rhs]

/-- Number of immediate parts: none for an atom, one for a negation, two for a
binary sentence. -/
def arity (s : Sentence) : Nat := s.children.length

/-- Whether the sentence is a constant or a variable. -/
def isAtom : Sentence → Bool
  | .const _ | .var _ => true
  | .neg _ | .binary .. => false

/-- Whether the outermost operation is a negation. -/
def isNegation : Sentence → Bool
  | .neg _ => true
  | .const _ | .var _ | .binary .. => false

/-- Connective and operands of a binary sentence. -/
def binary? : Sentence → Option (Connective × Sentence × Sentence)
  | .binary op lhs rhs => some (op, lhs, rhs)
  | .const _ | .var _ | .neg _ => none

/-- Number of constants, variables, negations and connectives in the tree. -/
def size : Sentence → Nat
  | .const _ | .var _ => 1
  | .neg body => 1 + body.size
  | .binary _ lhs rhs => 1 + (lhs.size + rhs.size)

/-- Length of the longest path from the root to an atom. -/
def depth : Sentence → Nat
  | .const _ | .var _ => 0
  | .neg body => 1 + body.depth
  | .binary _ lhs rhs => 1 + max lhs.depth rhs.depth

/-- The size of a sentence is one more than the sizes of its parts. -/
theorem size_eq (s : Sentence) : s.size = s.children.foldl (· + ·.size) 1 := by
  cases s <;> simp [size, children, Nat.add_assoc]

/-- Every immediate part is shallower than the whole. -/
theorem depth_lt_of_mem_children {s part : Sentence} (h : part ∈ s.children) :
    part.depth < s.depth := by
  cases s <;> simp only [children, List.mem_cons, List.not_mem_nil, or_false] at h
  · subst h; simp only [depth]; omega
  · rcases h with rfl | rfl <;> simp only [depth] <;> omega

/-- Atoms are exactly the sentences without parts. -/
theorem isAtom_iff_arity (s : Sentence) : s.isAtom = true ↔ s.arity = 0 := by
  cases s <;> simp [isAtom, arity, children]

end Sentence

end Sentential
