import Sentential.Proofs.Parse.Acceptance
import Sentential.Proofs.Sentence.Names

/-!
# Groups in place of variables

A phrase in parentheses can stand wherever a variable can. The tokens of a group lead from each
position that awaits an operand to the position that the variable leads to, but for the tree
and for what completed the operand, and on neither of them does the further way depend. So
putting groups in place of variables puts their trees in place of the leaves, and keeps every
fault.
-/

namespace Sentential

/-- The token, or the phrase for its name in parentheses if it is a variable. -/
def Token.subst (phrase : String → List Token) : Token → List Token
  | .var name => .lparen :: (phrase name ++ [.rparen])
  | token => [token]

/-- The error that takes the place of an error when groups take the place of variables. -/
def ParseError.subst : ParseError → ParseError
  | .unexpectedToken (.var _) => .unexpectedToken .lparen
  | e => e

namespace Parse

/-- An outcome when groups take the place of variables. -/
def substOutcome {α : Type} (f : α → α) (outcome : Except ParseError α) : Except ParseError α :=
  (outcome.map f).mapError ParseError.subst

variable (tree : String → Sentence)

/-- The place after the same tokens with groups in place of variables. -/
def Slot.subst (slot : Slot) : Slot :=
  ⟨slot.before?.map fun before ↦ (before.1.subst tree, before.2), slot.negated⟩

/-- What completes the operand when groups take the place of variables. -/
def Completion.subst : Completion → Completion
  | .var => .group
  | completion => completion

namespace Position

/-- The position after the same tokens with groups in place of variables. -/
def subst : Position → Position
  | .awaiting outer slot => .awaiting (outer.map (Slot.subst tree)) (slot.subst tree)
  | .complete outer slot completion s =>
    .complete (outer.map (Slot.subst tree)) (slot.subst tree) completion.subst (s.subst tree)

private theorem fill_subst (slot : Slot) (s : Sentence) :
    (slot.subst tree).fill (s.subst tree) = (slot.fill s).subst tree := by
  rcases slot with ⟨_ | ⟨lhs, op⟩, _ | _⟩ <;> rfl

/-- A token other than a variable is taken alike. -/
theorem step_subst (p : Position) {token : Token} (h : token.kind ≠ .var) :
    (p.subst tree).step token = substOutcome (subst tree) (p.step token) := by
  cases p with
  | awaiting outer slot =>
    cases token with
    | var name => exact absurd rfl h
    | lparen => rfl
    | const value => rfl
    | neg => rcases slot with ⟨before?, _ | _⟩ <;> rfl
    | connective op => rfl
    | rparen => rcases slot with ⟨_ | ⟨lhs, op⟩, _ | _⟩ <;> cases outer <;> rfl
  | complete outer slot completion s =>
    cases token with
    | var name => exact absurd rfl h
    | lparen => cases outer <;> rfl
    | const value => cases outer <;> rfl
    | neg => cases outer <;> rfl
    | connective op =>
      simp only [subst, step, substOutcome, fill_subst]
      rfl
    | rparen =>
      cases outer with
      | nil => rfl
      | cons place outer =>
        simp only [subst, List.map_cons, step, substOutcome, fill_subst]
        rfl

variable {tree} {phrase : String → List Token}

private theorem run_subst_var (h : ∀ name, parse (phrase name) = .ok (tree name)) (p : Position)
    (name : String) :
    (p.subst tree).run (Token.subst phrase (.var name)) =
      substOutcome (subst tree) (p.step (.var name)) := by
  cases p with
  | awaiting outer slot =>
    obtain ⟨inner, completion, operand, hs, hrun⟩ :=
      passes_of_derives (derives_of_parse (h name)) (slot.subst tree :: outer.map (Slot.subst tree))
    change (Position.awaiting (_ :: _) .fresh).run (phrase name ++ [.rparen]) = _
    rw [run_append, hrun]
    change Except.ok (Position.complete _ _ .group (inner.fill operand)) = _
    rw [hs]
    rfl
  | complete outer slot completion s => cases outer <;> rfl

private theorem run_subst_token (h : ∀ name, parse (phrase name) = .ok (tree name)) (p : Position)
    (token : Token) :
    (p.subst tree).run (token.subst phrase) = substOutcome (subst tree) (p.step token) := by
  have single (hkind : token.kind ≠ .var) :
      (p.subst tree).run [token] = substOutcome (subst tree) (p.step token) := by
    rw [run_cons, step_subst tree p hkind]
    cases p.step token <;> rfl
  cases token with
  | var name => exact run_subst_var h p name
  | lparen => exact single (by decide)
  | rparen => exact single (by decide)
  | neg => exact single (by decide)
  | connective op => exact single (by simp [Token.kind])
  | const value => exact single (by simp [Token.kind])

/-- Tokens with groups in place of variables lead to where the tokens lead. -/
theorem run_subst (h : ∀ name, parse (phrase name) = .ok (tree name)) (p : Position)
    (tokens : List Token) :
    (p.subst tree).run (tokens.flatMap (Token.subst phrase)) =
      substOutcome (subst tree) (p.run tokens) := by
  induction tokens generalizing p with
  | nil => rfl
  | cons token rest ih =>
    rw [List.flatMap_cons, run_append, run_subst_token h, run_cons]
    cases p.step token with
    | error e => rfl
    | ok next => exact ih next

/-- The sentence that ends at a position has the trees in place of its leaves. -/
theorem finish_subst (p : Position) :
    (p.subst tree).finish = substOutcome (Sentence.subst tree) p.finish := by
  cases p with
  | awaiting outer slot => rcases slot with ⟨_ | ⟨lhs, op⟩, _ | _⟩ <;> cases outer <;> rfl
  | complete outer slot completion s =>
    cases outer with
    | nil =>
      simp only [subst, List.map_nil, finish, substOutcome, fill_subst]
      rfl
    | cons place outer => rfl

end Position

variable {tree} {phrase : String → List Token}

/-- Parsing with groups in place of variables puts their trees in place of the leaves, or else
gives the error that takes the place of the error. -/
theorem parse_flatMap_subst (h : ∀ name, parse (phrase name) = .ok (tree name))
    (tokens : List Token) :
    parse (tokens.flatMap (Token.subst phrase)) =
      substOutcome (Sentence.subst tree) (parse tokens) := by
  have hrun : Position.start.run (tokens.flatMap (Token.subst phrase)) =
      substOutcome (Position.subst tree) (Position.start.run tokens) :=
    Position.run_subst h Position.start tokens
  rw [parse_eq_run, parse_eq_run, hrun]
  cases Position.start.run tokens with
  | error e => rfl
  | ok p => exact p.finish_subst

/-- Let every name have a phrase that is read as a tree. With the phrases, in parentheses, put in
place of the variables, a list of tokens is read as a sentence exactly if it was before, and its
tree is the former one with the trees in place of the leaves. If it was no sentence, it has the
same fault as before, unless that was an unexpected variable: then the unexpected token is the
opening parenthesis. -/
theorem parse_of_groups_for_variables (h : ∀ name, parse (phrase name) = .ok (tree name))
    (tokens : List Token) :
    ((∃ s, parse (tokens.flatMap (Token.subst phrase)) = .ok s) ↔
      ∃ s, parse tokens = .ok s) ∧
    (∀ s, parse tokens = .ok s →
      parse (tokens.flatMap (Token.subst phrase)) = .ok (s.subst tree)) ∧
    ∀ e, parse tokens = .error e →
      parse (tokens.flatMap (Token.subst phrase)) = .error e.subst := by
  rw [parse_flatMap_subst h tokens]
  refine ⟨?_, ?_, ?_⟩
  · cases parse tokens with
    | error e =>
      constructor
      · rintro ⟨s, hs⟩
        cases hs
      · rintro ⟨s, hs⟩
        cases hs
    | ok s => exact ⟨fun _ ↦ ⟨s, rfl⟩, fun _ ↦ ⟨s.subst tree, rfl⟩⟩
  · intro s hs
    rw [hs]
    rfl
  · intro e he
    rw [he]
    rfl

/-- With `(x or ~ z)` in place of each variable `x`, a negated variable becomes a negated group,
and a variable that follows another becomes an unexpected parenthesis. -/
theorem parse_of_groups_for_variables_with_disjunctions :
    let phrase (name : String) : List Token :=
      [.var name, .connective .or, .neg, .var "z"]
    let tree (name : String) : Sentence := .binary .or (.var name) (.neg (.var "z"))
    let accepted : List Token := [.neg, .var "a", .connective .and, .lparen, .var "b", .rparen]
    let rejected : List Token := [.var "a", .var "b", .neg]
    (∀ name, parse (phrase name) = .ok (tree name)) ∧
      parse (accepted.flatMap (Token.subst phrase)) =
        .ok (.binary .and (.neg (tree "a")) (tree "b")) ∧
      parse (rejected.flatMap (Token.subst phrase)) = .error (.unexpectedToken .lparen) := by
  intro phrase tree accepted rejected
  have reads (name : String) : parse (phrase name) = .ok (tree name) :=
    parse_of_derives (.connective .or (.operand (.primary (.var name))) (.neg (.var "z")))
  have accepts : parse accepted = .ok (.binary .and (.neg (.var "a")) (.var "b")) := by
    rw [parse_eq_run]
    rfl
  have rejects : parse rejected = .error (.unexpectedToken (.var "b")) := by
    rw [parse_eq_run]
    rfl
  exact ⟨reads, (parse_of_groups_for_variables reads accepted).2.1 _ accepts,
    (parse_of_groups_for_variables reads rejected).2.2 _ rejects⟩

end Parse

end Sentential
