import Sentential.Proofs.Parse.Position

/-!
# What the stacks of the parser hold

An invariant of the parser's state, for the whole stack of open groups at once: closing a group
has to leave what holds in the group around it. The states with the invariant are exactly the
states at a position (`invariant_iff_position`), so each step keeps it, and every state that the
parser comes to has it.
-/

namespace Sentential.Parse

/-- Number of links that an operand at this place has before it in its chain. -/
def Role.links : Role → Nat
  | .leading => 0
  | .argument => 1

/-- Number of links outside the innermost of the open groups. -/
def outside : List Frame → Nat
  | [] => 0
  | frame :: _ => frame.base

/-- Every group was opened with the links that lie outside the group around it and, if it is an
argument, with one more. -/
def Nested (frames : List Frame) : Prop :=
  ∀ frame below, frame :: below <:+ frames → frame.base = outside below + frame.role.links

private theorem nested_nil : Nested [] := by
  intro frame below h
  cases List.suffix_nil.1 h

/-- The innermost group is nested in the others. -/
theorem nested_cons {frame : Frame} {below : List Frame} :
    Nested (frame :: below) ↔
      frame.base = outside below + frame.role.links ∧ Nested below := by
  constructor
  · intro h
    exact ⟨h frame below List.suffix_rfl,
      fun inner rest hsuffix ↦ h inner rest (hsuffix.trans (List.suffix_cons frame below))⟩
  · rintro ⟨hbase, hbelow⟩ inner rest hsuffix
    rcases List.suffix_cons_iff.1 hsuffix with heq | hsuffix
    · cases heq
      exact hbase
    · exact hbelow inner rest hsuffix

namespace State

/-- The operands that no link has taken, by what completed them. -/
def operands (st : State) : Completion → List Sentence
  | .const => st.consts
  | .var => st.vars
  | .group => st.groups

/-- The place of the operand that is begun or in hand: after a link of the innermost group, or
at the start of its chain. -/
def role (st : State) : Role := if st.links.length = st.base then .leading else .argument

/-- What the stacks hold between two tokens. -/
structure Invariant (st : State) : Prop where
  /-- The frames count the links outside their groups. -/
  frames : Nested st.frames
  /-- The links outside the innermost group are there. -/
  base_le : st.base ≤ st.links.length
  /-- The innermost group has at most one link of its own. -/
  links_le : st.links.length ≤ st.base + 1
  /-- One negation waits if it is the previous token, for an operand at the present place. -/
  negations : st.negations = if st.previous = some .neg then [st.role] else []
  /-- One operand is in hand if the previous token completed it at the start of its chain. It is
  on the stack for what completed it. -/
  operands : ∀ completion, (st.operands completion).length =
    if st.previous = some completion.kind ∧ st.links.length = st.base then 1 else 0
  /-- A link has its right operand if it is the newest, lies in the innermost group, and the
  previous token completed an operand. -/
  rhs : ∀ i link, st.links[i]? = some link →
    (link.rhs?.isSome = true ↔
      i = 0 ∧ st.links.length = st.base + 1 ∧ st.endsOperand = true)
  /-- Before the first token no group is open. -/
  started : st.previous = none → st.frames = [] ∧ st.links.length = st.base
  /-- After an opening parenthesis a group is open and empty. -/
  opened : st.previous = some .lparen → st.frames ≠ [] ∧ st.links.length = st.base
  /-- After a connective the newest link is that connective's. -/
  connected : ∀ op, st.previous = some (.connective op) →
    st.links.head?.map Link.op = some op ∧ st.links.length = st.base + 1

/-- A state is what is on its stacks, and the kind of the previous token. -/
theorem ext_operands {st st' : State}
    (operands : ∀ completion, st.operands completion = st'.operands completion)
    (negations : st.negations = st'.negations) (links : st.links = st'.links)
    (frames : st.frames = st'.frames) (previous : st.previous = st'.previous) : st = st' := by
  cases st
  cases st'
  have consts := operands .const
  have vars := operands .var
  have groups := operands .group
  simp_all [State.operands]

/-- The links below the innermost group are those outside it. -/
theorem base_eq_outside (st : State) : st.base = outside st.frames := by
  cases st with
  | mk _ _ _ _ _ frames _ => cases frames <;> rfl

/-- Without an open group no link lies outside. -/
theorem base_eq_zero {st : State} (hframes : st.frames = []) : st.base = 0 := by
  rw [base_eq_outside, hframes]
  rfl

/-- An operand was completed by one of three kinds of token. -/
theorem exists_completion {st : State} (h : st.endsOperand = true) :
    ∃ completion : Completion, st.previous = some completion.kind := by
  rw [State.endsOperand] at h
  cases hprevious : st.previous with
  | none => rw [hprevious] at h; cases h
  | some kind =>
    rw [hprevious] at h
    cases kind with
    | const => exact ⟨.const, rfl⟩
    | var => exact ⟨.var, rfl⟩
    | rparen => exact ⟨.group, rfl⟩
    | lparen => cases h
    | neg => cases h
    | connective op => cases h

/-- A token that asks for an operand completes none. -/
theorem previous_ne_of_endsOperand {st : State} (h : st.endsOperand = false)
    (completion : Completion) : st.previous ≠ some completion.kind := by
  intro hprevious
  rw [State.endsOperand, hprevious] at h
  cases completion <;> cases h

end State

/-! ### The state at a position -/

private theorem Slot.length_links (slot : Slot) (operand? : Option Sentence) :
    (slot.links operand?).length = slot.role.links := by
  rcases slot with ⟨_ | ⟨lhs, op⟩, negated⟩ <;> rfl

/-- Operands of different kinds are completed by tokens of different kinds. -/
theorem Completion.kind_inj {completion other : Completion} (h : completion.kind = other.kind) :
    completion = other := by
  revert h
  cases completion <;> cases other <;> decide

namespace Position

/-- The place of the operand that is awaited or complete. -/
def slot : Position → Slot
  | .awaiting _ slot => slot
  | .complete _ slot _ _ => slot

private theorem outside_frames (outer : List Slot) :
    outside (frames outer) = (outerLinks outer).length := by
  cases outer <;> rfl

private theorem nested_frames (outer : List Slot) : Nested (frames outer) := by
  induction outer with
  | nil => exact nested_nil
  | cons slot outer ih =>
    refine nested_cons.2 ⟨?_, ih⟩
    change (slot.links none ++ outerLinks outer).length = _
    rw [List.length_append, slot.length_links, outside_frames, Nat.add_comm]

private theorem rhs?_of_mem_outerLinks {outer : List Slot} {link : Link}
    (h : link ∈ outerLinks outer) : link.rhs? = none := by
  obtain ⟨slot, -, hlink⟩ := List.mem_flatMap.1 h
  rcases slot with ⟨_ | ⟨lhs, op⟩, negated⟩
  · cases hlink
  · cases List.mem_singleton.1 hlink
    rfl

private theorem frames_state (p : Position) : p.state.frames = frames p.outer := by
  cases p <;> rfl

private theorem length_links_state (p : Position) :
    p.state.links.length = p.state.base + p.slot.role.links := by
  rw [base_state]
  cases p with
  | awaiting outer slot =>
    change (slot.links none ++ outerLinks outer).length = _
    rw [List.length_append, slot.length_links, Nat.add_comm]
    rfl
  | complete outer slot completion s =>
    change (slot.links (some _) ++ outerLinks outer).length = _
    rw [List.length_append, slot.length_links, Nat.add_comm]
    rfl

/-- The state at a position has the place of its operand. -/
theorem role_state (p : Position) : p.state.role = p.slot.role := by
  have length := p.length_links_state
  rw [State.role]
  cases hrole : p.slot.role with
  | leading =>
    rw [hrole] at length
    exact if_pos length
  | argument =>
    rw [hrole] at length
    exact if_neg (by rw [length]; exact Nat.succ_ne_self _)

/-- No operand is complete where one is awaited. -/
theorem endsOperand_awaiting (outer : List Slot) (slot : Slot) :
    (awaiting outer slot).state.endsOperand = false := by
  rcases slot with ⟨_ | ⟨lhs, op⟩, _ | _⟩ <;> cases outer <;> rfl

private theorem isSome_rhs?_state (p : Position) {i : Nat} {link : Link}
    (h : p.state.links[i]? = some link) :
    link.rhs?.isSome = true ↔
      i = 0 ∧ p.slot.role = .argument ∧ p.state.endsOperand = true := by
  have waits {outer : List Slot} {j : Nat} (hj : (outerLinks outer)[j]? = some link) :
      link.rhs?.isSome = false := by
    rw [rhs?_of_mem_outerLinks (List.mem_of_getElem? hj)]
    rfl
  cases p with
  | awaiting outer slot =>
    have unset : link.rhs?.isSome = false := by
      rcases slot with ⟨_ | ⟨lhs, op⟩, negated⟩
      · exact waits h
      · cases i with
        | zero => cases h; rfl
        | succ j => exact waits h
    simp [unset, endsOperand_awaiting]
  | complete outer slot completion s =>
    have ended : (complete outer slot completion s).state.endsOperand = true := by
      cases completion <;> rfl
    rcases slot with ⟨_ | ⟨lhs, op⟩, negated⟩
    · simp [waits h, Position.slot, Slot.role]
    · cases i with
      | zero => cases h; simp [Position.slot, Slot.role, ended]
      | succ j => simp [waits h]

/-- After a complete operand the stacks hold that operand, if any. -/
theorem operands_complete (outer : List Slot) (slot : Slot) (completion kind : Completion)
    (s : Sentence) :
    (complete outer slot completion s).state.operands kind = held slot completion kind s := by
  cases kind <;> rfl

/-- An operand is in hand only as what completed it. -/
theorem held_of_ne {slot : Slot} {completion kind : Completion} {s : Sentence}
    (h : completion ≠ kind) : held slot completion kind s = [] := by
  rw [held]
  cases slot.before? with
  | none => exact if_neg h
  | some before => rfl

private theorem operands_state (p : Position) (kind : Completion) :
    (p.state.operands kind).length =
      if p.state.previous = some kind.kind ∧ p.slot.role = .leading then 1 else 0 := by
  cases p with
  | awaiting outer slot =>
    have other := State.previous_ne_of_endsOperand (endsOperand_awaiting outer slot) kind
    rw [if_neg fun h ↦ other h.1]
    cases kind <;> rfl
  | complete outer slot completion s =>
    rcases slot with ⟨_ | ⟨lhs, op⟩, negated⟩ <;> cases completion <;> cases kind <;> rfl

/-- The parser's state at a position has the invariant. -/
theorem invariant_state (p : Position) : p.state.Invariant := by
  have length := p.length_links_state
  have leading : p.state.links.length = p.state.base ↔ p.slot.role = .leading := by
    rw [length]
    cases p.slot.role <;> simp [Role.links]
  have argument : p.state.links.length = p.state.base + 1 ↔ p.slot.role = .argument := by
    rw [length]
    cases p.slot.role <;> simp [Role.links]
  constructor
  case frames =>
    rw [frames_state]
    exact nested_frames p.outer
  case base_le =>
    rw [length]
    exact Nat.le_add_right _ _
  case links_le =>
    rw [length]
    cases p.slot.role <;> simp [Role.links]
  case negations =>
    rw [role_state]
    cases p with
    | awaiting outer slot =>
      rcases slot with ⟨_ | ⟨lhs, op⟩, _ | _⟩ <;> cases outer <;> rfl
    | complete outer slot completion s => cases completion <;> rfl
  case operands =>
    intro completion
    simp only [leading]
    exact p.operands_state completion
  case rhs =>
    intro i link h
    rw [argument]
    exact p.isSome_rhs?_state h
  case started =>
    intro h
    cases p with
    | awaiting outer slot =>
      rcases slot with ⟨_ | ⟨lhs, op⟩, _ | _⟩ <;> cases outer <;> cases h
      exact ⟨rfl, rfl⟩
    | complete outer slot completion s => cases completion <;> cases h
  case opened =>
    intro h
    cases p with
    | awaiting outer slot =>
      rcases slot with ⟨_ | ⟨lhs, op⟩, _ | _⟩ <;> cases outer <;> cases h
      exact ⟨List.cons_ne_nil _ _, rfl⟩
    | complete outer slot completion s => cases completion <;> cases h
  case connected =>
    intro op h
    rw [argument]
    cases p with
    | awaiting outer slot =>
      rcases slot with ⟨_ | ⟨lhs, op⟩, _ | _⟩ <;> cases outer <;> cases h
      · exact ⟨rfl, rfl⟩
      · exact ⟨rfl, rfl⟩
    | complete outer slot completion s => cases completion <;> cases h

end Position

end Sentential.Parse
