import Sentential.Proofs.Parse.Invariant

/-!
# The invariant is kept

A state with the invariant is the state at a position (`State.invariant_iff_position`): its
frames and links give the places of the open groups, its last token and its operand in hand the
rest. So the parser's step, which is the step of positions, keeps the invariant, and so does a
run.
-/

namespace Sentential.Parse

namespace Position

private theorem exists_outer {fs : List Frame} {links : List Link} (nested : Nested fs)
    (length : links.length = outside fs) (waiting : ∀ link ∈ links, link.rhs? = none) :
    ∃ outer, frames outer = fs ∧ outerLinks outer = links := by
  induction fs generalizing links with
  | nil =>
    cases List.length_eq_zero_iff.1 length
    exact ⟨[], rfl, rfl⟩
  | cons frame below ih =>
    obtain ⟨hbase, hbelow⟩ := nested_cons.1 nested
    rcases frame with ⟨_ | _, negated, base⟩
    · obtain ⟨outer, rfl, rfl⟩ := ih hbelow (length.trans hbase) waiting
      refine ⟨⟨none, negated⟩ :: outer, ?_, rfl⟩
      cases length
      rfl
    · rcases links with _ | ⟨⟨op, lhs, rhs?⟩, rest⟩
      · cases length.trans hbase
      · obtain ⟨outer, rfl, rfl⟩ := ih hbelow (Nat.succ.inj (length.trans hbase))
          fun link h ↦ waiting link (List.mem_cons_of_mem _ h)
        cases waiting _ List.mem_cons_self
        refine ⟨⟨some (lhs, op), negated⟩ :: outer, ?_, rfl⟩
        cases length
        rfl

end Position

namespace State.Invariant

variable {st : State}

/-- In the innermost group is no link or one. -/
theorem length_cases (h : st.Invariant) :
    st.links.length = st.base ∨ st.links.length = st.base + 1 := by
  have base_le := h.base_le
  have links_le := h.links_le
  omega

private theorem rhs?_eq_none (h : st.Invariant) {i : Nat} {link : Link}
    (hlink : st.links[i]? = some link)
    (hfree : ¬ (i = 0 ∧ st.links.length = st.base + 1 ∧ st.endsOperand = true)) :
    link.rhs? = none := by
  rw [← h.rhs i link hlink] at hfree
  simpa using hfree

/-- The stack for a kind of operand is empty unless the previous token completed one of it. -/
theorem operands_eq_nil (h : st.Invariant) {completion : Completion}
    (hne : st.previous ≠ some completion.kind) : st.operands completion = [] := by
  have length := h.operands completion
  rw [if_neg fun both ↦ hne both.1] at length
  exact List.length_eq_zero_iff.1 length

/-- The links outside the innermost group are those of the open groups. -/
theorem exists_outer (h : st.Invariant) : ∃ outer, Position.frames outer = st.frames ∧
    ((st.links.length = st.base ∧ st.links = Position.outerLinks outer) ∨
      ∃ link, st.links.length = st.base + 1 ∧ st.links = link :: Position.outerLinks outer ∧
        link.rhs?.isSome = st.endsOperand) := by
  rcases h.length_cases with length | length
  · have waiting : ∀ link ∈ st.links, link.rhs? = none := by
      intro link hlink
      obtain ⟨i, hi⟩ := List.mem_iff_getElem?.1 hlink
      exact h.rhs?_eq_none hi (by omega)
    obtain ⟨outer, hframes, hlinks⟩ :=
      Position.exists_outer h.frames (length.trans st.base_eq_outside) waiting
    exact ⟨outer, hframes, .inl ⟨length, hlinks.symm⟩⟩
  · obtain ⟨link, rest, hlinks⟩ := List.exists_cons_of_length_eq_add_one length
    have restLength : rest.length = outside st.frames := by
      rw [hlinks, List.length_cons] at length
      rw [← st.base_eq_outside]
      exact Nat.succ.inj length
    have waiting : ∀ other ∈ rest, other.rhs? = none := by
      intro other hother
      obtain ⟨i, hi⟩ := List.mem_iff_getElem?.1 hother
      have later : st.links[i + 1]? = some other := by rw [hlinks]; exact hi
      exact h.rhs?_eq_none later (by omega)
    obtain ⟨outer, hframes, hrest⟩ := Position.exists_outer h.frames restLength waiting
    have newest : st.links[0]? = some link := by rw [hlinks]; rfl
    refine ⟨outer, hframes, .inr ⟨link, length, ?_, ?_⟩⟩
    · rw [hlinks, hrest]
    · rw [Bool.eq_iff_iff, h.rhs 0 link newest]
      simp [length]

private theorem state_awaiting_eq (h : st.Invariant) {outer : List Slot} {slot : Slot}
    (hframes : Position.frames outer = st.frames)
    (hlinks : slot.links none ++ Position.outerLinks outer = st.links)
    (hprevious : (Position.awaiting outer slot).previous? = st.previous) :
    (Position.awaiting outer slot).state = st := by
  have role : slot.role = st.role := by
    calc slot.role = (Position.awaiting outer slot).state.role :=
          (Position.awaiting outer slot).role_state.symm
      _ = st.role := by
          rw [State.role, State.role, base_eq_outside, base_eq_outside, ← hframes, ← hlinks]
          rfl
  refine State.ext_operands ?_ ?_ hlinks hframes hprevious
  · intro completion
    have other : st.previous ≠ some completion.kind := by
      rw [← hprevious]
      exact previous_ne_of_endsOperand (Position.endsOperand_awaiting outer slot) completion
    rw [h.operands_eq_nil other]
    cases completion <;> rfl
  · rw [h.negations, ← role, ← hprevious]
    rcases slot with ⟨_ | ⟨lhs, op⟩, _ | _⟩ <;> cases outer <;> rfl

private theorem state_complete_eq (h : st.Invariant) {outer : List Slot} {slot : Slot}
    {completion : Completion} {s : Sentence} (hframes : Position.frames outer = st.frames)
    (hlinks : slot.links (some (negateIf slot.negated s)) ++ Position.outerLinks outer = st.links)
    (hheld : Position.held slot completion completion s = st.operands completion)
    (hprevious : st.previous = some completion.kind) :
    (Position.complete outer slot completion s).state = st := by
  refine State.ext_operands ?_ ?_ hlinks hframes hprevious.symm
  · intro kind
    rw [Position.operands_complete]
    by_cases hkind : completion = kind
    · rw [← hkind]
      exact hheld
    · have other : st.previous ≠ some kind.kind := by
        rw [hprevious]
        exact fun same ↦ hkind (Completion.kind_inj (Option.some.inj same))
      rw [Position.held_of_ne hkind, h.operands_eq_nil other]
  · rw [h.negations, hprevious]
    cases completion <;> rfl

private theorem exists_awaiting (h : st.Invariant) (hends : st.endsOperand = false) :
    ∃ outer slot, (Position.awaiting outer slot).state = st := by
  obtain ⟨outer, hframes, place⟩ := h.exists_outer
  -- The token before tells the slot, and the count of links agrees with it.
  cases hprevious : st.previous with
  | none =>
    obtain ⟨noFrames, atStart⟩ := h.started hprevious
    rcases place with ⟨-, hlinks⟩ | ⟨link, length, -⟩
    · refine ⟨outer, .fresh, h.state_awaiting_eq hframes hlinks.symm ?_⟩
      cases outer with
      | nil => exact hprevious.symm
      | cons place outer => cases hframes.trans noFrames
    · omega
  | some kind =>
    cases kind with
    | lparen =>
      obtain ⟨hasFrame, atStart⟩ := h.opened hprevious
      rcases place with ⟨-, hlinks⟩ | ⟨link, length, -⟩
      · refine ⟨outer, .fresh, h.state_awaiting_eq hframes hlinks.symm ?_⟩
        cases outer with
        | nil => exact absurd hframes.symm hasFrame
        | cons place outer => exact hprevious.symm
      · omega
    | neg =>
      rcases place with ⟨-, hlinks⟩ | ⟨⟨op, lhs, rhs?⟩, -, hlinks, hrhs⟩
      · exact ⟨outer, ⟨none, true⟩, h.state_awaiting_eq hframes hlinks.symm hprevious.symm⟩
      · obtain rfl : rhs? = none := by simpa using hrhs.trans hends
        exact ⟨outer, ⟨some (lhs, op), true⟩,
          h.state_awaiting_eq hframes hlinks.symm hprevious.symm⟩
    | connective op =>
      obtain ⟨newest, afterLink⟩ := h.connected op hprevious
      rcases place with ⟨length, -⟩ | ⟨⟨held, lhs, rhs?⟩, -, hlinks, hrhs⟩
      · omega
      · rw [hlinks] at newest
        cases newest
        obtain rfl : rhs? = none := by simpa using hrhs.trans hends
        exact ⟨outer, ⟨some (lhs, held), false⟩,
          h.state_awaiting_eq hframes hlinks.symm hprevious.symm⟩
    | const => rw [State.endsOperand, hprevious] at hends; cases hends
    | var => rw [State.endsOperand, hprevious] at hends; cases hends
    | rparen => rw [State.endsOperand, hprevious] at hends; cases hends

private theorem exists_complete (h : st.Invariant) (hends : st.endsOperand = true) :
    ∃ outer slot completion s, (Position.complete outer slot completion s).state = st := by
  obtain ⟨outer, hframes, place⟩ := h.exists_outer
  obtain ⟨completion, hprevious⟩ := exists_completion hends
  have held := h.operands completion
  rcases place with ⟨length, hlinks⟩ | ⟨⟨op, lhs, rhs?⟩, length, hlinks, hrhs⟩
  · rw [if_pos ⟨hprevious, length⟩] at held
    obtain ⟨s, hs⟩ := List.length_eq_one_iff.1 held
    refine ⟨outer, .fresh, completion, s, h.state_complete_eq hframes hlinks.symm ?_ hprevious⟩
    rw [hs]
    exact if_pos rfl
  · obtain ⟨rhs, rfl⟩ := Option.isSome_iff_exists.1 (hrhs.trans hends)
    rw [if_neg fun both ↦ by omega] at held
    refine ⟨outer, ⟨some (lhs, op), false⟩, completion, rhs,
      h.state_complete_eq hframes hlinks.symm ?_ hprevious⟩
    exact (List.length_eq_zero_iff.1 held).symm

end State.Invariant

/-- The states with the invariant are the states at a position. -/
theorem State.invariant_iff_position (st : State) :
    st.Invariant ↔ ∃ p : Position, p.state = st := by
  constructor
  · intro h
    cases hends : st.endsOperand with
    | true =>
      obtain ⟨outer, slot, completion, s, hstate⟩ := h.exists_complete hends
      exact ⟨.complete outer slot completion s, hstate⟩
    | false =>
      obtain ⟨outer, slot, hstate⟩ := h.exists_awaiting hends
      exact ⟨.awaiting outer slot, hstate⟩
  · rintro ⟨p, rfl⟩
    exact p.invariant_state

namespace State.Invariant

/-- The invariant holds before the first token. -/
theorem start : State.start.Invariant := Position.start.invariant_state

variable {st st' : State}

/-- Each token that is taken keeps the invariant. -/
theorem step (h : st.Invariant) {token : Token} (hstep : st.step token = .ok st') :
    st'.Invariant := by
  obtain ⟨p, rfl⟩ := st.invariant_iff_position.1 h
  rw [p.step_state] at hstep
  cases hp : p.step token with
  | error e => rw [hp] at hstep; cases hstep
  | ok p' =>
    rw [hp] at hstep
    cases hstep
    exact p'.invariant_state

/-- Tokens that are taken one after the other keep the invariant. -/
theorem run (h : st.Invariant) {tokens : List Token} (hrun : st.run tokens = .ok st') :
    st'.Invariant := by
  induction tokens generalizing st with
  | nil => cases hrun; exact h
  | cons token rest ih =>
    rw [State.run, List.foldlM_cons] at hrun
    obtain ⟨next, hstep, hrest⟩ := bind_eq_ok_iff.1 hrun
    exact ih (h.step hstep) hrest

end State.Invariant

end Sentential.Parse
