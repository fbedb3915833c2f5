import Sentential.Parse.Basic

/-!
# Positions in a sentence

Where a left-to-right reader stands between two tokens: in which open groups, at which
place of the innermost chain, and whether the operand at that place is complete. The
state of the parser is a function of its position, and the parser's step is the step of
positions (`Position.step_state`), so what holds of positions holds of the parser. None
of the parser's precautions against a missing stack entry has a counterpart here.
-/

namespace Sentential.Parse

/-- A computation in two parts succeeds if both parts do. -/
theorem bind_eq_ok_iff {ε α β : Type} {x : Except ε α} {f : α → Except ε β} {b : β} :
    x.bind f = .ok b ↔ ∃ a, x = .ok a ∧ f a = .ok b := by
  cases x with
  | ok a => simp [Except.bind]
  | error e => simp [Except.bind]

/-- The place of an operand in its chain: the chain before it with the connective that
follows it, if any, and whether a negation stands before the operand. -/
structure Slot where
  before? : Option (Sentence × Connective)
  negated : Bool
deriving DecidableEq, Repr

namespace Slot

/-- The place at the start of a chain. -/
def fresh : Slot := ⟨none, false⟩

/-- Whether the operand starts its chain. -/
def role (slot : Slot) : Role :=
  match slot.before? with
  | none => .leading
  | some _ => .argument

/-- The chain up to the operand, when that operand is `s` but for the negation. -/
def fill (slot : Slot) (s : Sentence) : Sentence :=
  match slot.before? with
  | none => State.negateIf slot.negated s
  | some (lhs, op) => .binary op lhs (State.negateIf slot.negated s)

/-- The link of the connective before the operand, if any. -/
def links (slot : Slot) (operand? : Option Sentence) : List Link :=
  match slot.before? with
  | none => []
  | some (lhs, op) => [⟨op, lhs, operand?⟩]

end Slot

/-- What completed an operand. -/
inductive Completion where
  | const
  | var
  | group
deriving DecidableEq, Repr

/-- The kind of the token that completed the operand. -/
def Completion.kind : Completion → Token.Kind
  | .const => .const
  | .var => .var
  | .group => .rparen

/-- A position between two tokens. The places of the open groups come innermost first. -/
inductive Position where
  /-- The operand at the place is still to come. -/
  | awaiting (outer : List Slot) (slot : Slot)
  /-- The operand at the place is complete; it is `s` but for the negation. -/
  | complete (outer : List Slot) (slot : Slot) (completion : Completion) (s : Sentence)
deriving DecidableEq, Repr

namespace Position

/-- The position before the first token. -/
def start : Position := .awaiting [] .fresh

/-- The places of the open groups, innermost first. -/
def outer : Position → List Slot
  | .awaiting outer _ => outer
  | .complete outer _ _ _ => outer

/-- The kind of the token before the position. -/
def previous? : Position → Option Token.Kind
  | .awaiting _ ⟨_, true⟩ => some .neg
  | .awaiting _ ⟨some (_, op), false⟩ => some (.connective op)
  | .awaiting [] ⟨none, false⟩ => none
  | .awaiting (_ :: _) ⟨none, false⟩ => some .lparen
  | .complete _ _ completion _ => some completion.kind

/-- The position after the next token. -/
def step : Position → Token → Except ParseError Position
  | .awaiting outer slot, .lparen => .ok (.awaiting (slot :: outer) .fresh)
  | .awaiting outer slot, .const value => .ok (.complete outer slot .const (.const value))
  | .awaiting outer slot, .var name => .ok (.complete outer slot .var (.var name))
  | .awaiting outer ⟨before?, false⟩, .neg => .ok (.awaiting outer ⟨before?, true⟩)
  | .awaiting _ ⟨_, true⟩, .neg => .error .doubleNegation
  | .awaiting _ _, .connective op => .error (.missingOperand (.connective op))
  | .awaiting [] _, .rparen => .error .unmatchedParen
  | .awaiting (_ :: _) ⟨_, true⟩, .rparen => .error .danglingNegation
  | .awaiting (_ :: _) ⟨some (_, op), false⟩, .rparen =>
    .error (.missingOperand (.connective op))
  | .awaiting (_ :: _) ⟨none, false⟩, .rparen => .error .emptyGroup
  | .complete outer slot _ s, .connective op =>
    .ok (.awaiting outer ⟨some (slot.fill s, op), false⟩)
  | .complete (place :: outer) slot _ s, .rparen =>
    .ok (.complete outer place .group (slot.fill s))
  | .complete [] _ _ _, .rparen => .error .unmatchedParen
  | .complete .., token => .error (.unexpectedToken token)

/-- The steps that succeed, one rule for each way to go on. -/
inductive Takes : Position → Token → Position → Prop
  | lparen (outer : List Slot) (slot : Slot) :
      Takes (.awaiting outer slot) .lparen (.awaiting (slot :: outer) .fresh)
  | const (outer : List Slot) (slot : Slot) (value : Bool) :
      Takes (.awaiting outer slot) (.const value) (.complete outer slot .const (.const value))
  | var (outer : List Slot) (slot : Slot) (name : String) :
      Takes (.awaiting outer slot) (.var name) (.complete outer slot .var (.var name))
  | neg (outer : List Slot) (before? : Option (Sentence × Connective)) :
      Takes (.awaiting outer ⟨before?, false⟩) .neg (.awaiting outer ⟨before?, true⟩)
  | connective (outer : List Slot) (slot : Slot) (completion : Completion) (s : Sentence)
      (op : Connective) :
      Takes (.complete outer slot completion s) (.connective op)
        (.awaiting outer ⟨some (slot.fill s, op), false⟩)
  | rparen (place : Slot) (outer : List Slot) (slot : Slot) (completion : Completion)
      (s : Sentence) :
      Takes (.complete (place :: outer) slot completion s) .rparen
        (.complete outer place .group (slot.fill s))

/-- A step that succeeds follows one of the rules. -/
theorem takes_of_step {p p' : Position} {token : Token} (h : p.step token = .ok p') :
    Takes p token p' := by
  cases p with
  | awaiting outer slot =>
    cases token with
    | lparen => cases h; exact .lparen outer slot
    | const value => cases h; exact .const outer slot value
    | var name => cases h; exact .var outer slot name
    | neg =>
      rcases slot with ⟨before?, _ | _⟩
      · cases h
        exact .neg outer before?
      · cases h
    | connective op => cases h
    | rparen => rcases slot with ⟨_ | ⟨lhs, op⟩, _ | _⟩ <;> cases outer <;> cases h
  | complete outer slot completion s =>
    cases token with
    | connective op => cases outer <;> cases h <;> exact .connective _ slot completion s op
    | rparen =>
      cases outer with
      | nil => cases h
      | cons place outer => cases h; exact .rparen place outer slot completion s
    | lparen => cases outer <;> cases h
    | neg => cases outer <;> cases h
    | const value => cases outer <;> cases h
    | var name => cases outer <;> cases h

/-- The position after the tokens, up to the first fault. -/
def run (p : Position) (tokens : List Token) : Except ParseError Position :=
  tokens.foldlM step p

/-- The sentence that ends at the position. -/
def finish : Position → Except ParseError Sentence
  | .awaiting (_ :: _) _ | .complete (_ :: _) _ _ _ => .error .unclosedParen
  | .awaiting [] ⟨_, true⟩ => .error .danglingNegation
  | .awaiting [] ⟨some (_, op), false⟩ => .error (.missingOperand (.connective op))
  | .awaiting [] ⟨none, false⟩ => .error .emptySentence
  | .complete [] slot _ s => .ok (slot.fill s)

/-! ### Runs -/

/-- Running over a list in two parts. -/
theorem run_append (p : Position) (ts us : List Token) :
    p.run (ts ++ us) = (p.run ts).bind (·.run us) := List.foldlM_append

/-- Running over a first token. -/
theorem run_cons (p : Position) (token : Token) (rest : List Token) :
    p.run (token :: rest) = (p.step token).bind (·.run rest) := List.foldlM_cons

/-- Running over a last token. -/
theorem run_concat (p : Position) (ts : List Token) (token : Token) :
    p.run (ts ++ [token]) = (p.run ts).bind (·.step token) := by
  rw [run_append]
  cases p.run ts with
  | error e => rfl
  | ok p' =>
    change p'.run [token] = p'.step token
    rw [run_cons]
    cases p'.step token <;> rfl

/-! ### The parser's state -/

/-- The links of the connectives before the open groups. -/
def outerLinks (outer : List Slot) : List Link := outer.flatMap (·.links none)

/-- The frames of the open groups. A group's base counts the links outside it. -/
def frames : List Slot → List Frame
  | [] => []
  | slot :: outer => ⟨slot.role, slot.negated, (outerLinks (slot :: outer)).length⟩ :: frames outer

/-- The operand in hand, if it starts its chain and `kind` is what completed it. -/
def held (slot : Slot) (completion kind : Completion) (s : Sentence) : List Sentence :=
  match slot.before? with
  | none => if completion = kind then [State.negateIf slot.negated s] else []
  | some _ => []

/-- The state of the parser at the position. -/
def state : Position → State
  | .awaiting outer slot =>
    { consts := []
      vars := []
      groups := []
      negations := if slot.negated then [slot.role] else []
      links := slot.links none ++ outerLinks outer
      frames := frames outer
      previous := (Position.awaiting outer slot).previous? }
  | .complete outer slot completion s =>
    { consts := held slot completion .const s
      vars := held slot completion .var s
      groups := held slot completion .group s
      negations := []
      links := slot.links (some (State.negateIf slot.negated s)) ++ outerLinks outer
      frames := frames outer
      previous := some completion.kind }

/-- The first position is that of the state before the first token. -/
theorem start_state : start.state = State.start := rfl

/-- The innermost group starts above the links outside it. -/
theorem base_state (p : Position) : p.state.base = (outerLinks p.outer).length := by
  cases p with
  | awaiting outer slot => cases outer <;> rfl
  | complete outer slot completion s => cases outer <;> rfl

private theorem step_state_awaiting (outer : List Slot) (slot : Slot) (token : Token) :
    (awaiting outer slot).state.step token = ((awaiting outer slot).step token).map state := by
  rcases slot with ⟨_ | ⟨lhs, op⟩, _ | _⟩ <;> cases outer <;> cases token <;> rfl

private theorem connect_state (outer : List Slot) (slot : Slot) (completion : Completion)
    (s : Sentence) (op : Connective) :
    (complete outer slot completion s).state.connect op =
      ((complete outer slot completion s).step (.connective op)).map state := by
  rcases slot with ⟨_ | ⟨lhs, before⟩, negated⟩
  · cases completion <;> rfl
  · -- The operand went to the link before it, so that link becomes the left operand.
    let p := complete outer ⟨some (lhs, before), negated⟩ completion s
    have noneHeld : p.state.popOperand? = none := by cases completion <;> rfl
    have above : p.state.base < p.state.links.length := by
      rw [base_state]
      exact Nat.lt_succ_self _
    have ended : p.state.endsOperand = true := by cases completion <;> rfl
    change p.state.connect op = _
    rw [State.connect, ended, noneHeld]
    simp only [above, if_true]
    rfl

private def closing (place : Slot) (outer : List Slot) (completion : Completion) : State :=
  { consts := []
    vars := []
    groups := []
    negations := []
    links := outerLinks (place :: outer)
    frames := frames outer
    previous := some completion.kind }

private theorem placeGroup_closing (place : Slot) (outer : List Slot) (completion : Completion)
    (base : Nat) (s : Sentence) :
    (closing place outer completion).placeGroup ⟨place.role, place.negated, base⟩ s =
      .ok { (complete outer place .group s).state with previous := some completion.kind } := by
  rcases place with ⟨_ | ⟨lhs, op⟩, negated⟩ <;> rfl

private theorem closeGroup_of_complete (place slot : Slot) (outer : List Slot)
    (completion : Completion) (s : Sentence) :
    (complete (place :: outer) slot completion s).state.closeGroup =
      ((closing place outer completion).placeGroup
          ⟨place.role, place.negated, (outerLinks (place :: outer)).length⟩ (slot.fill s)).map
        ({ · with previous := some .rparen }) := by
  rcases slot with ⟨_ | ⟨lhs, op⟩, negated⟩
  · -- No link of the group is left, so the operand in hand is all of it.
    cases completion <;>
    · simp only [State.closeGroup, state, frames, Completion.kind, Slot.links, List.nil_append,
        Nat.lt_irrefl, if_false]
      rfl
  · cases completion <;>
    · simp only [State.closeGroup, state, frames, Completion.kind, Slot.links,
        List.singleton_append, List.length_cons, Nat.lt_succ_self, if_true]
      rfl

private theorem closeGroup_state (outer : List Slot) (slot : Slot) (completion : Completion)
    (s : Sentence) :
    (complete outer slot completion s).state.closeGroup =
      ((complete outer slot completion s).step .rparen).map state := by
  cases outer with
  | nil => rfl
  | cons place outer =>
    rw [closeGroup_of_complete, placeGroup_closing]
    rfl

/-- The parser's step is the step of its position. -/
theorem step_state (p : Position) (token : Token) :
    p.state.step token = (p.step token).map state := by
  cases p with
  | awaiting outer slot => exact step_state_awaiting outer slot token
  | complete outer slot completion s =>
    cases token with
    | connective op => exact connect_state outer slot completion s op
    | rparen => exact closeGroup_state outer slot completion s
    | lparen => cases completion <;> cases outer <;> rfl
    | neg => cases completion <;> cases outer <;> rfl
    | const value => cases completion <;> cases outer <;> rfl
    | var name => cases completion <;> cases outer <;> rfl

/-- The parser's run is the run of its position. -/
theorem run_state (p : Position) (tokens : List Token) :
    p.state.run tokens = (p.run tokens).map state := by
  induction tokens generalizing p with
  | nil => rfl
  | cons token rest ih =>
    rw [State.run, List.foldlM_cons, run_cons, step_state]
    cases p.step token with
    | ok p' => exact ih p'
    | error e => rfl

/-- The parser ends with the sentence that ends at its position. -/
theorem finish_state (p : Position) : p.state.finish = p.finish := by
  cases p with
  | awaiting outer slot => rcases slot with ⟨_ | ⟨lhs, op⟩, _ | _⟩ <;> cases outer <;> rfl
  | complete outer slot completion s =>
    rcases slot with ⟨_ | ⟨lhs, op⟩, _ | _⟩ <;> cases outer <;> cases completion <;> rfl

end Position

/-- Parsing follows the positions from the start and takes the sentence that ends there. -/
theorem parse_eq_run (tokens : List Token) :
    parse tokens = (Position.start.run tokens).bind Position.finish := by
  rw [parse_eq, ← Position.start_state, Position.run_state]
  cases Position.start.run tokens with
  | ok p => exact p.finish_state
  | error e => rfl

end Sentential.Parse
