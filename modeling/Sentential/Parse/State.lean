import Sentential.Parse.Error
import Sentential.Sentence.Basic

/-!
# State of the parser

Tokens are taken from left to right, without looking ahead or going back. Between
two tokens the parser holds the operands that no connective has taken yet, the
connectives that have their left operand, the open parentheses and the negations
that wait for an operand. All connectives bind alike and chain to the left; a
negation covers the next atom or group only.
-/

namespace Sentential.Parse

/-- The place of an operand: at the start of a chain, or on the right of the
connective before it. -/
inductive Role where
  | leading
  | argument
deriving DecidableEq, Repr

/-- A connective with its left operand, and its right one as soon as it is there. -/
structure Link where
  op : Connective
  lhs : Sentence
  rhs? : Option Sentence
deriving DecidableEq, Repr

/-- An open parenthesis: the place of its group, whether the group is negated, and
the number of links that were there when it was opened. -/
structure Frame where
  role : Role
  negated : Bool
  base : Nat
deriving DecidableEq, Repr

/-- What the parser holds between two tokens. Each list has its newest entry first. -/
structure State where
  /-- Constants, negated or not, that no link has taken. -/
  consts : List Sentence
  /-- Variables, negated or not, that no link has taken. -/
  vars : List Sentence
  /-- Closed groups that no link has taken. -/
  groups : List Sentence
  /-- Negations that wait for their operand, with its place. -/
  negations : List Role
  /-- Connectives that have their left operand. -/
  links : List Link
  /-- Parentheses that are open. -/
  frames : List Frame
  /-- The kind of the token taken last. -/
  previous : Option Token.Kind
deriving DecidableEq, Repr

/-- The sentence of a link that has both operands. -/
def Link.sentence (link : Link) : Except ParseError Sentence :=
  match link.rhs? with
  | some rhs => .ok (.binary link.op link.lhs rhs)
  | none => .error (.missingOperand (.connective link.op))

namespace State

/-- The state before the first token. -/
def start : State := ⟨[], [], [], [], [], [], none⟩

/-- Number of links outside the innermost open group. -/
def base (st : State) : Nat :=
  match st.frames with
  | [] => 0
  | frame :: _ => frame.base

/-- Whether an operand is complete after the previous token. -/
def endsOperand (st : State) : Bool := st.previous.any Token.Kind.endsOperand

/-- Gives the newest link its right operand; `token` completes that operand. -/
def attach (st : State) (operand : Sentence) (token : Token) : Except ParseError State :=
  match st.links with
  | ⟨op, lhs, none⟩ :: rest => .ok { st with links := ⟨op, lhs, some operand⟩ :: rest }
  | _ => .error (.unexpectedToken token)

/-- Takes the sentence of the newest link. -/
def popLink (st : State) : Except ParseError (Sentence × State) :=
  match st.links with
  | [] => .error .incompleteSentence
  | link :: rest => link.sentence.map (·, { st with links := rest })

/-- Takes the free operand that the previous token completed, if there is one. -/
def popOperand? (st : State) : Option (Sentence × State) :=
  match st.previous with
  | some .var =>
    match st.vars with
    | [] => none
    | s :: rest => some (s, { st with vars := rest })
  | some .const =>
    match st.consts with
    | [] => none
    | s :: rest => some (s, { st with consts := rest })
  | some .rparen =>
    match st.groups with
    | [] => none
    | s :: rest => some (s, { st with groups := rest })
  | _ => none

/-- The place of the operand that starts now and whether it is negated, taking the
negation that waits for it. -/
def beginOperand (st : State) : Except ParseError (Role × Bool × State) :=
  match st.previous with
  | some .neg =>
    match st.negations with
    | [] => .error .danglingNegation
    | role :: rest => .ok (role, true, { st with negations := rest })
  | some (.connective _) => .ok (.argument, false, st)
  | _ => .ok (.leading, false, st)

/-- Negates a sentence on demand. -/
def negateIf (negated : Bool) (s : Sentence) : Sentence := if negated then .neg s else s

/-- Takes an opening parenthesis. -/
def openGroup (st : State) : Except ParseError State :=
  if st.endsOperand then
    .error (.unexpectedToken .lparen)
  else do
    let (role, negated, st) ← st.beginOperand
    return { st with
      frames := ⟨role, negated, st.links.length⟩ :: st.frames
      previous := some .lparen }

/-- Puts a complete group at its place. -/
def placeGroup (st : State) (frame : Frame) (inner : Sentence) : Except ParseError State :=
  let group := negateIf frame.negated inner
  match frame.role with
  | .argument => st.attach group .rparen
  | .leading => .ok { st with groups := group :: st.groups }

/-- Takes a closing parenthesis. -/
def closeGroup (st : State) : Except ParseError State :=
  match st.frames with
  | [] => .error .unmatchedParen
  | frame :: frames =>
    let st := { st with frames := frames }
    match st.previous with
    | some .lparen => .error .emptyGroup
    | some (.connective op) => .error (.missingOperand (.connective op))
    | some .neg => .error .danglingNegation
    | _ => do
      let (inner, st) ←
        if frame.base < st.links.length then
          st.popLink
        else
          match st.popOperand? with
          | some taken => .ok taken
          | none => .error (.missingOperand .rparen)
      let st ← st.placeGroup frame inner
      return { st with previous := some .rparen }

/-- Takes a negation. -/
def negate (st : State) : Except ParseError State :=
  if st.previous = some .neg then
    .error .doubleNegation
  else if st.endsOperand then
    .error (.unexpectedToken .neg)
  else
    let role := match st.previous with
      | some (.connective _) => .argument
      | _ => .leading
    .ok { st with negations := role :: st.negations, previous := some .neg }

/-- Takes a connective. Its left operand is the free operand before it or, if the
operand before it completed a link, that whole link. -/
def connect (st : State) (op : Connective) : Except ParseError State := do
  let (lhs, st) ←
    if st.endsOperand then
      match st.popOperand? with
      | some taken => .ok taken
      | none =>
        if st.base < st.links.length then
          st.popLink
        else
          .error (.missingOperand (.connective op))
    else
      .error (.missingOperand (.connective op))
  return { st with
    links := ⟨op, lhs, none⟩ :: st.links
    previous := some (.connective op) }

/-- Takes a constant or a variable, `token`, which is the sentence `atom`. -/
def takeAtom (st : State) (atom : Sentence) (token : Token) : Except ParseError State :=
  if st.endsOperand then
    .error (.unexpectedToken token)
  else do
    let (role, negated, st) ← st.beginOperand
    let operand := negateIf negated atom
    let st ←
      match role, token.kind with
      | .argument, _ => st.attach operand token
      | .leading, .const => .ok { st with consts := operand :: st.consts }
      | .leading, _ => .ok { st with vars := operand :: st.vars }
    return { st with previous := some token.kind }

/-- Takes the next token. -/
def step (st : State) (token : Token) : Except ParseError State :=
  match token with
  | .lparen => st.openGroup
  | .rparen => st.closeGroup
  | .neg => st.negate
  | .connective op => st.connect op
  | .const value => st.takeAtom (.const value) token
  | .var name => st.takeAtom (.var name) token

/-- Takes the whole sentence after the last token. -/
def body (st : State) : Except ParseError (Sentence × State) :=
  match st.groups with
  | group :: groups =>
    let st := { st with groups := groups }
    if st.links.isEmpty then
      .ok (group, st)
    else do
      let st ← st.attach group .rparen
      st.popLink
  | [] =>
    match st.consts with
    | s :: consts => .ok (s, { st with consts := consts })
    | [] =>
      match st.vars with
      | s :: vars => .ok (s, { st with vars := vars })
      | [] => if st.links.isEmpty then .error .emptySentence else st.popLink

/-- Ends the sentence after the last token. -/
def finish (st : State) : Except ParseError Sentence :=
  if !st.frames.isEmpty then
    .error .unclosedParen
  else if !st.negations.isEmpty then
    .error .danglingNegation
  else
    match st.previous with
    | some (.connective op) => .error (.missingOperand (.connective op))
    | _ => do
      let (s, rest) ← st.body
      if rest.consts.isEmpty && rest.vars.isEmpty && rest.groups.isEmpty
          && rest.links.isEmpty then
        return s
      else
        .error .incompleteSentence

end State

end Sentential.Parse
