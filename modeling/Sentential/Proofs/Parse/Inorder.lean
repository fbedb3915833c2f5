import Sentential.Proofs.Parse.Acceptance
import Sentential.Proofs.Sentence.Names

/-!
# The tokens in the tree

The parser puts every token but the parentheses into the tree, and nothing else. An in-order walk
of the tree, with a negation before its operand and a connective between its two, comes to these
tokens in the order in which they were read. So the measures of the tree can be read off the
tokens.
-/

namespace Sentential

namespace Token

/-- Whether the token is a parenthesis. -/
def isParen : Token → Bool
  | .lparen | .rparen => true
  | .neg | .connective _ | .const _ | .var _ => false

/-- The name of a variable. -/
def name? : Token → Option String
  | .var name => some name
  | .lparen | .rparen | .neg | .connective _ | .const _ => none

private theorem isSome_name? (token : Token) : token.name?.isSome = decide (token.kind = .var) := by
  cases token <;> simp [name?, kind]

private theorem filterMap_name?_filter (tokens : List Token) :
    (tokens.filter fun token ↦ !token.isParen).filterMap name? = tokens.filterMap name? := by
  rw [List.filterMap_filter]
  congr 1
  funext token
  cases token <;> rfl

end Token

namespace Sentence

/-- The tokens in the tree, as an in-order walk comes to them. -/
def inorder : Sentence → List Token
  | .const value => [.const value]
  | .var name => [.var name]
  | .neg body => .neg :: body.inorder
  | .binary op lhs rhs => lhs.inorder ++ .connective op :: rhs.inorder

/-- The walk comes to as many tokens as the tree has nodes. -/
theorem length_inorder (s : Sentence) : s.inorder.length = s.size := by
  induction s with
  | const value => rfl
  | var name => rfl
  | neg body ih => rw [inorder, List.length_cons, ih, size, Nat.add_comm]
  | binary op lhs rhs ihl ihr =>
    rw [inorder, List.length_append, List.length_cons, ihl, ihr, size]
    omega

private theorem filterMap_name?_inorder (s : Sentence) :
    s.inorder.filterMap Token.name? = s.names := by
  induction s with
  | const value => rfl
  | var name => rfl
  | neg body ih => exact ih
  | binary op lhs rhs ihl ihr =>
    have unnamed : (Token.connective op).name? = none := rfl
    rw [inorder, List.filterMap_append, List.filterMap_cons_none unnamed, ihl, ihr, names]

end Sentence

/-- A phrase without its parentheses is the walk of its tree. -/
theorem Derives.filter_eq_inorder {phrase : Phrase} {ts : List Token} {s : Sentence}
    (h : Derives phrase ts s) : (ts.filter fun token ↦ !token.isParen) = s.inorder := by
  induction h with
  | operand _ ih => exact ih
  | connective op _ _ ihl ihr =>
    rw [List.filter_append, List.filter_cons_of_pos rfl, ihl, ihr, Sentence.inorder]
  | primary _ ih => exact ih
  | neg _ ih => rw [List.filter_cons_of_pos rfl, ih, Sentence.inorder]
  | var name => rfl
  | const value => rfl
  | group _ ih =>
    rw [List.filter_cons_of_neg Bool.false_ne_true, List.filter_append, ih]
    exact List.append_nil _

namespace Parse

variable {tokens : List Token} {s : Sentence}

/-- A sentence that is read from tokens has a node for each of them that is no parenthesis, an
occurrence of a variable for each that is a variable, and as its variables the names of these, each
where it comes first. Without their parentheses the tokens are the in-order walk of the tree. -/
theorem inorder_of_parse (h : parse tokens = .ok s) :
    s.size = tokens.countP (fun token ↦ !token.isParen) ∧
    s.occurrences = tokens.countP (fun token ↦ token.kind = .var) ∧
    s.vars = (tokens.filterMap Token.name?).eraseDups ∧
    (tokens.filter fun token ↦ !token.isParen) = s.inorder := by
  have kept := (derives_of_parse h).filter_eq_inorder
  have named : tokens.filterMap Token.name? = s.names := by
    rw [← Token.filterMap_name?_filter, kept, s.filterMap_name?_inorder]
  refine ⟨?_, ?_, ?_, kept⟩
  · rw [List.countP_eq_length_filter, kept, s.length_inorder]
  · rw [← s.length_names, ← named, List.length_filterMap_eq_countP]
    simp only [Token.isSome_name?]
  · rw [named, s.vars_eq_eraseDups]

/-- Of the thirteen tokens of `~ ( b or ( a ) ) and ~ b ==> a` nine go into the tree. -/
theorem inorder_of_parse_in_groups :
    let tokens : List Token := [.neg, .lparen, .var "b", .connective .or, .lparen, .var "a",
      .rparen, .rparen, .connective .and, .neg, .var "b", .connective .implies, .var "a"]
    let s : Sentence := .binary .implies (.binary .and (.neg (.binary .or (.var "b") (.var "a")))
      (.neg (.var "b"))) (.var "a")
    parse tokens = .ok s ∧ s.size = 9 ∧ s.occurrences = 4 ∧ s.vars = ["b", "a"] ∧
      s.inorder = [.neg, .var "b", .connective .or, .var "a", .connective .and, .neg, .var "b",
        .connective .implies, .var "a"] := by
  intro tokens s
  have accepted : parse tokens = .ok s := by
    rw [parse_eq_run]
    rfl
  obtain ⟨hsize, hoccurrences, hvars, hinorder⟩ := inorder_of_parse accepted
  exact ⟨accepted, hsize, hoccurrences, hvars, hinorder.symm⟩

end Parse

end Sentential
