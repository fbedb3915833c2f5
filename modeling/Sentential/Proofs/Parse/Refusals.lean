import Sentential.Proofs.Parse.Supplies

/-!
# The parser fails only where it refuses

Since what the handlers take is on the stacks, none of the parser's looks at them fails. A token is
an error exactly if its handler refuses it at once, and the end exactly if the sentence lacks
something there. So no list of tokens is rejected because of operands left over.
-/

namespace Sentential.Parse

namespace State

/-! ### One token -/

private theorem eq_error_iff_of_refusal {α : Type} {outcome : Except ParseError α}
    {refusal? : Option ParseError} (refused : ∀ e, refusal? = some e → outcome = .error e)
    (accepted : refusal? = none → ∃ a, outcome = .ok a) (e : ParseError) :
    outcome = .error e ↔ refusal? = some e := by
  constructor
  · intro houtcome
    cases hrefusal : refusal? with
    | none =>
      obtain ⟨a, ha⟩ := accepted hrefusal
      cases houtcome.symm.trans ha
    | some e' =>
      cases houtcome.symm.trans (refused e' hrefusal)
      rfl
  · exact refused e

private theorem step_of_refusal? {st : State} {token : Token} {e : ParseError}
    (hrefusal : st.refusal? token = some e) : st.step token = .error e := by
  rw [refusal?.eq_def] at hrefusal
  cases token with
  | lparen =>
    obtain ⟨hends, rfl⟩ : st.endsOperand = true ∧ _ = e := by simpa using hrefusal
    rw [step, openGroup, if_pos hends]
  | rparen =>
    cases hframes : st.frames with
    | nil =>
      obtain rfl : _ = e := by simpa [hframes] using hrefusal
      rw [step, closeGroup, hframes]
    | cons frame below =>
      simp only [hframes, List.isEmpty_cons, Bool.false_eq_true, if_false] at hrefusal
      rw [step, closeGroup, hframes]
      split at hrefusal
      · next hprevious => cases hrefusal; simp only [hprevious]
      · next hprevious => cases hrefusal; simp only [hprevious]
      · next hprevious => cases hrefusal; simp only [hprevious]
      · cases hrefusal
  | neg =>
    rw [step, negate]
    simp only at hrefusal
    split at hrefusal
    · next hprevious => cases hrefusal; rw [if_pos hprevious]
    · next hprevious =>
      obtain ⟨hends, rfl⟩ : st.endsOperand = true ∧ _ = e := by simpa using hrefusal
      rw [if_neg hprevious, if_pos hends]
  | connective op =>
    obtain ⟨hends, rfl⟩ : st.endsOperand = false ∧ _ = e := by simpa using hrefusal
    rw [step, connect, hends]
    rfl
  | const value =>
    obtain ⟨hends, rfl⟩ : st.endsOperand = true ∧ _ = e := by simpa using hrefusal
    rw [step, takeAtom, if_pos hends]
  | var name =>
    obtain ⟨hends, rfl⟩ : st.endsOperand = true ∧ _ = e := by simpa using hrefusal
    rw [step, takeAtom, if_pos hends]

namespace Invariant

variable {st : State}

private theorem exists_openGroup (h : st.Invariant) (hends : st.endsOperand = false) :
    ∃ st', st.openGroup = .ok st' := by
  obtain ⟨⟨role, negated, st'⟩, hbegin⟩ := h.begins
  rw [openGroup, hends, hbegin]
  exact ⟨_, rfl⟩

private theorem exists_takeAtom (h : st.Invariant) (hends : st.endsOperand = false)
    (atom : Sentence) (token : Token) : ∃ st', st.takeAtom atom token = .ok st' := by
  obtain ⟨⟨role, negated, st'⟩, hbegin⟩ := h.begins
  rw [takeAtom, hends, hbegin]
  cases role with
  | leading => cases token <;> exact ⟨_, rfl⟩
  | argument =>
    obtain ⟨st'', hattach⟩ := h.attaches hbegin (negateIf negated atom) token
    refine ⟨{ st'' with previous := some token.kind }, ?_⟩
    change (st'.attach (negateIf negated atom) token >>= _) = _
    rw [hattach]
    rfl

private theorem exists_connect (h : st.Invariant) (hends : st.endsOperand = true)
    (op : Connective) : ∃ st', st.connect op = .ok st' := by
  rw [connect, hends]
  cases htaken : st.popOperand? with
  | some taken => exact ⟨_, rfl⟩
  | none =>
    obtain ⟨above, taken, hpop⟩ := h.connects hends htaken
    simp only [above, if_true, hpop]
    exact ⟨_, rfl⟩

private theorem exists_closeGroup (h : st.Invariant) {frame : Frame} {below : List Frame}
    (hframes : st.frames = frame :: below) (hrefusal : st.refusal? .rparen = none) :
    ∃ st', st.closeGroup = .ok st' := by
  obtain ⟨inner, st', htaken, st'', hplace⟩ := h.closes hframes hrefusal
  have hends := h.endsOperand_of_refusal?_rparen (by simp [hframes]) hrefusal
  obtain ⟨completion, hprevious⟩ := exists_completion hends
  have placed : (st'.placeGroup frame inner >>= fun st ↦
      pure { st with previous := some .rparen }) =
        Except.ok { st'' with previous := some .rparen } := by
    rw [hplace]
    rfl
  refine ⟨{ st'' with previous := some .rparen }, ?_⟩
  by_cases above : frame.base < st.links.length
  · rw [if_pos above] at htaken
    cases completion <;>
    · simp only [closeGroup, hframes, hprevious, Completion.kind, above, if_true] at htaken ⊢
      rw [htaken]
      exact placed
  · rw [if_neg above] at htaken
    cases completion <;>
    · simp only [closeGroup, hframes, hprevious, Completion.kind, above, if_false] at htaken ⊢
      rw [htaken]
      exact placed

/-- A token that is not refused is taken. -/
theorem exists_step (h : st.Invariant) {token : Token} (hrefusal : st.refusal? token = none) :
    ∃ st', st.step token = .ok st' := by
  cases token with
  | lparen => exact h.exists_openGroup (by simpa [refusal?] using hrefusal)
  | rparen =>
    cases hframes : st.frames with
    | nil => simp [refusal?, hframes] at hrefusal
    | cons frame below => exact h.exists_closeGroup hframes hrefusal
  | neg =>
    rw [State.step, negate]
    rw [refusal?] at hrefusal
    split at hrefusal
    · cases hrefusal
    · next hprevious =>
      have hends : st.endsOperand = false := by simpa using hrefusal
      rw [if_neg hprevious, hends]
      exact ⟨_, rfl⟩
  | connective op => exact h.exists_connect (by simpa [refusal?] using hrefusal) op
  | const value => exact h.exists_takeAtom (by simpa [refusal?] using hrefusal) _ _
  | var name => exact h.exists_takeAtom (by simpa [refusal?] using hrefusal) _ _

/-- A token is an error exactly if it is refused. -/
theorem step_eq_error_iff (h : st.Invariant) (token : Token) (e : ParseError) :
    st.step token = .error e ↔ st.refusal? token = some e :=
  eq_error_iff_of_refusal (fun _ ↦ step_of_refusal?) h.exists_step e

private theorem body_of_started (h : st.Invariant) (hprevious : st.previous = none) :
    st.body = .error .emptySentence := by
  obtain ⟨hframes, level⟩ := h.started hprevious
  have base := base_eq_zero hframes
  have empty (completion : Completion) : st.operands completion = [] :=
    h.operands_eq_nil (by simp [hprevious])
  have consts : st.consts = [] := empty .const
  have vars : st.vars = [] := empty .var
  have groups : st.groups = [] := empty .group
  have links : st.links = [] := List.length_eq_zero_iff.1 (level.trans base)
  simp [body, groups, consts, vars, links]

private theorem finish_of_refusalAtEnd? (h : st.Invariant) {e : ParseError}
    (hrefusal : st.refusalAtEnd? = some e) : st.finish = .error e := by
  rw [refusalAtEnd?] at hrefusal
  rw [finish]
  split at hrefusal
  · next hframes => cases hrefusal; rw [if_pos hframes]
  next hframes =>
  rw [if_neg hframes]
  split at hrefusal
  · next hnegations => cases hrefusal; rw [if_pos hnegations]
  next hnegations =>
  rw [if_neg hnegations]
  split at hrefusal
  · next hprevious => cases hrefusal; simp only [hprevious]
  · next hprevious =>
    cases hrefusal
    simp only [hprevious, h.body_of_started hprevious]
    rfl
  · cases hrefusal

/-- A sentence that lacks nothing is the parser's answer. -/
theorem exists_finish (h : st.Invariant) (hrefusal : st.refusalAtEnd? = none) :
    ∃ s, st.finish = .ok s := by
  obtain ⟨s, rest, hbody, consts, vars, groups, links⟩ := h.ends hrefusal
  have hframes := frames_of_refusalAtEnd? hrefusal
  obtain ⟨completion, hprevious⟩ := exists_completion (h.endsOperand_of_refusalAtEnd? hrefusal)
  have noneWaits := h.negations_eq_nil (by
    rw [hprevious]
    cases completion <;> simp [Completion.kind])
  refine ⟨s, ?_⟩
  rw [finish, hframes, noneWaits, hbody]
  cases completion <;>
  · simp only [hprevious, Completion.kind]
    rcases rest with ⟨_, _, _, _, _, _, _⟩
    cases consts
    cases vars
    cases groups
    cases links
    rfl

/-- The end of the sentence is an error exactly if the sentence lacks something. -/
theorem finish_eq_error_iff (h : st.Invariant) (e : ParseError) :
    st.finish = .error e ↔ st.refusalAtEnd? = some e :=
  eq_error_iff_of_refusal (fun _ ↦ h.finish_of_refusalAtEnd?) h.exists_finish e

end Invariant

/-! ### Runs -/

private theorem ne_of_refusal? {st : State} {token : Token} {e : ParseError}
    (hrefusal : st.refusal? token = some e) :
    e ≠ .incompleteSentence ∧ e ≠ .unexpectedToken .rparen ∧ e ≠ .missingOperand .rparen := by
  rw [refusal?.eq_def] at hrefusal
  -- One goal for each refusal.
  repeat' split at hrefusal
  all_goals cases hrefusal
  all_goals simp

private theorem ne_of_refusalAtEnd? {st : State} {e : ParseError}
    (hrefusal : st.refusalAtEnd? = some e) :
    e ≠ .incompleteSentence ∧ e ≠ .unexpectedToken .rparen ∧ e ≠ .missingOperand .rparen := by
  rw [refusalAtEnd?] at hrefusal
  repeat' split at hrefusal
  all_goals cases hrefusal
  all_goals simp

namespace Invariant

/-- Tokens fail where one of them is refused. -/
theorem exists_refusal?_of_run {st : State} (h : st.Invariant) {tokens : List Token}
    {e : ParseError} (hrun : st.run tokens = .error e) :
    ∃ (st' : State) (token : Token), st'.Invariant ∧ st'.refusal? token = some e := by
  induction tokens generalizing st with
  | nil => cases hrun
  | cons token rest ih =>
    rw [State.run, List.foldlM_cons] at hrun
    cases hstep : st.step token with
    | error e' =>
      rw [hstep] at hrun
      cases hrun
      exact ⟨st, token, h, (h.step_eq_error_iff token e).1 hstep⟩
    | ok next =>
      rw [hstep] at hrun
      exact ih (h.step hstep) hrun

end Invariant

end State

/-- The parser rejects tokens only where it refuses one of them, or at the end for what the
sentence lacks. -/
theorem exists_refusal_of_parse {tokens : List Token} {e : ParseError}
    (h : parse tokens = .error e) :
    (∃ (st : State) (token : Token), st.Invariant ∧ st.refusal? token = some e) ∨
      ∃ st : State, st.Invariant ∧ st.refusalAtEnd? = some e := by
  rw [parse_eq] at h
  cases hrun : State.start.run tokens with
  | error e' =>
    rw [hrun] at h
    cases h
    exact .inl (State.Invariant.start.exists_refusal?_of_run hrun)
  | ok st =>
    rw [hrun] at h
    have hst := State.Invariant.start.run hrun
    exact .inr ⟨st, hst, (hst.finish_eq_error_iff e).1 h⟩

/-- The errors that only a look at the stacks would give are none of the parser's answers. -/
theorem parse_ne_precaution (tokens : List Token) :
    parse tokens ≠ .error .incompleteSentence ∧
      parse tokens ≠ .error (.unexpectedToken .rparen) ∧
      parse tokens ≠ .error (.missingOperand .rparen) := by
  have refused {e : ParseError} (h : parse tokens = .error e) :
      e ≠ .incompleteSentence ∧ e ≠ .unexpectedToken .rparen ∧ e ≠ .missingOperand .rparen := by
    obtain ⟨st, token, -, hrefusal⟩ | ⟨st, -, hrefusal⟩ := exists_refusal_of_parse h
    · exact State.ne_of_refusal? hrefusal
    · exact State.ne_of_refusalAtEnd? hrefusal
  exact ⟨fun h ↦ (refused h).1 rfl, fun h ↦ (refused h).2.1 rfl, fun h ↦ (refused h).2.2 rfl⟩

/-- Whatever tokens the parser has taken, its stacks have the invariant. So they hold what any
handler takes from them: a further token fails only if its handler refuses it at once, and the
end only for what the sentence lacks. No list of tokens is rejected because of operands left over,
or for a closing parenthesis that finds no operand or no place. -/
theorem invariant_of_run (tokens : List Token) :
    (∀ st, State.start.run tokens = .ok st →
      st.Invariant ∧ st.Supplied ∧
        (∀ token e, st.step token = .error e ↔ st.refusal? token = some e) ∧
        ∀ e, st.finish = .error e ↔ st.refusalAtEnd? = some e) ∧
    parse tokens ≠ .error .incompleteSentence ∧
    parse tokens ≠ .error (.unexpectedToken .rparen) ∧
    parse tokens ≠ .error (.missingOperand .rparen) := by
  refine ⟨?_, parse_ne_precaution tokens⟩
  intro st hrun
  have h := State.Invariant.start.run hrun
  exact ⟨h, h.supplied, h.step_eq_error_iff, h.finish_eq_error_iff⟩

/-- After `a or ~(b and true` the negated group holds a complete link, and the link outside it
waits. -/
theorem invariant_of_run_in_negated_argument :
    let st : State :=
      { consts := []
        vars := []
        groups := []
        negations := []
        links := [⟨.and, .var "b", some (.const true)⟩, ⟨.or, .var "a", none⟩]
        frames := [⟨.argument, true, 1⟩]
        previous := some .const }
    State.start.run [.var "a", .connective .or, .neg, .lparen, .var "b", .connective .and,
        .const true] = .ok st ∧
      st.Invariant ∧ st.Supplied := by
  intro st
  have hrun : State.start.run [.var "a", .connective .or, .neg, .lparen, .var "b",
      .connective .and, .const true] = .ok st := rfl
  obtain ⟨invariant, supplied, -⟩ := (invariant_of_run _).1 st hrun
  exact ⟨hrun, invariant, supplied⟩

end Sentential.Parse
