import Sentential.Proofs.Parse.Preservation

/-!
# What the handlers find on the stacks

A handler first looks at the kind of the previous token and the open groups, and may refuse its
token (`State.refusal?`). A handler that goes on takes from the stacks, each time with a look
whether there is something to take. By the invariant there is (`State.Invariant.supplied`).
-/

namespace Sentential.Parse

namespace State

/-- The error with which a handler refuses its token before it touches a stack. -/
def refusal? (st : State) : Token → Option ParseError
  | .lparen => if st.endsOperand then some (.unexpectedToken .lparen) else none
  | .rparen =>
    if st.frames.isEmpty then
      some .unmatchedParen
    else
      match st.previous with
      | some .lparen => some .emptyGroup
      | some (.connective op) => some (.missingOperand (.connective op))
      | some .neg => some .danglingNegation
      | _ => none
  | .neg =>
    if st.previous = some .neg then some .doubleNegation
    else if st.endsOperand then some (.unexpectedToken .neg)
    else none
  | .connective op => if st.endsOperand then none else some (.missingOperand (.connective op))
  | .const value => if st.endsOperand then some (.unexpectedToken (.const value)) else none
  | .var name => if st.endsOperand then some (.unexpectedToken (.var name)) else none

/-- The error for what the sentence lacks after the last token. -/
def refusalAtEnd? (st : State) : Option ParseError :=
  if !st.frames.isEmpty then
    some .unclosedParen
  else if !st.negations.isEmpty then
    some .danglingNegation
  else
    match st.previous with
    | some (.connective op) => some (.missingOperand (.connective op))
    | none => some .emptySentence
    | _ => none

/-- Whatever the handlers take from the stacks is there. -/
structure Supplied (st : State) : Prop where
  /-- An operand that begins after a negation finds it waiting. -/
  begins : ∃ begun, st.beginOperand = .ok begun
  /-- An atom that begins an argument finds a link without a right operand. -/
  attaches : ∀ negated st', st.beginOperand = .ok (.argument, negated, st') →
    ∀ operand token, ∃ st'', st'.attach operand token = .ok st''
  /-- A group that may close finds its sentence, in its link or in hand, and then its place. -/
  closes : ∀ frame below, st.frames = frame :: below → st.refusal? .rparen = none →
    ∃ inner st',
      (if frame.base < st.links.length then
        { st with frames := below }.popLink = .ok (inner, st')
      else
        { st with frames := below }.popOperand? = some (inner, st')) ∧
      ∃ st'', st'.placeGroup frame inner = .ok st''
  /-- A connective after an operand that is not in hand finds it in a link of the group. -/
  connects : st.endsOperand = true → st.popOperand? = none →
    st.base < st.links.length ∧ ∃ taken, st.popLink = .ok taken
  /-- A group that is in hand outside all groups has no link before it. -/
  groups : st.frames = [] → st.groups ≠ [] → st.links = []
  /-- A sentence that lacks nothing is all that is left at its end. -/
  ends : st.refusalAtEnd? = none → ∃ s rest, st.body = .ok (s, rest) ∧
    rest.consts = [] ∧ rest.vars = [] ∧ rest.groups = [] ∧ rest.links = []

/-! ### What the handlers take -/

/-- A sentence that lacks nothing ends outside all groups. -/
theorem frames_of_refusalAtEnd? {st : State} (hrefusal : st.refusalAtEnd? = none) :
    st.frames = [] := by
  cases hframes : st.frames with
  | nil => rfl
  | cons frame below => simp [refusalAtEnd?, hframes] at hrefusal

private theorem endsOperand_or_previous (st : State) :
    st.endsOperand = true ∨ st.previous = none ∨ st.previous = some .lparen ∨
      st.previous = some .neg ∨ ∃ op, st.previous = some (.connective op) := by
  rw [endsOperand]
  cases st.previous with
  | none => exact .inr (.inl rfl)
  | some kind => cases kind <;> simp [Token.Kind.endsOperand]

private theorem exists_attach (st : State) {link : Link} {rest : List Link}
    (hlinks : st.links = link :: rest) (waits : link.rhs? = none) (operand : Sentence)
    (token : Token) : ∃ st', st.attach operand token = .ok st' := by
  rcases link with ⟨op, lhs, rhs?⟩
  cases waits
  rw [attach, hlinks]
  exact ⟨_, rfl⟩

private theorem popLink_eq (st : State) {link : Link} {rest : List Link}
    (hlinks : st.links = link :: rest) (complete : link.rhs?.isSome = true) :
    ∃ s, st.popLink = .ok (s, { st with links := rest }) := by
  rcases link with ⟨op, lhs, rhs?⟩
  obtain ⟨rhs, rfl⟩ := Option.isSome_iff_exists.1 complete
  rw [popLink, hlinks]
  exact ⟨_, rfl⟩

private theorem popOperand?_eq (st : State) {completion : Completion} {s : Sentence}
    {rest : List Sentence} (hprevious : st.previous = some completion.kind)
    (hheld : st.operands completion = s :: rest) :
    ∃ st', st.popOperand? = some (s, st') ∧ st'.links = st.links := by
  cases completion <;>
  · rw [popOperand?, hprevious]
    simp only [operands] at hheld
    simp only [Completion.kind, hheld]
    exact ⟨_, rfl, rfl⟩

private theorem body_eq_popLink (st : State) (groups : st.groups = []) (consts : st.consts = [])
    (vars : st.vars = []) (links : st.links ≠ []) : st.body = st.popLink := by
  simp [body, groups, consts, vars, links]

private theorem exists_placeGroup (st : State) {outer : List Slot} {frame : Frame}
    {below : List Frame} (hframes : Position.frames outer = frame :: below)
    (hlinks : st.links = Position.outerLinks outer) (inner : Sentence) :
    ∃ st', st.placeGroup frame inner = .ok st' := by
  rcases outer with _ | ⟨⟨_ | ⟨lhs, op⟩, negated⟩, outer⟩
  · cases hframes
  · cases hframes
    exact ⟨_, rfl⟩
  · cases hframes
    exact st.exists_attach hlinks rfl _ _

namespace Invariant

variable {st : State}

private theorem exists_held (h : st.Invariant) (hends : st.endsOperand = true)
    (length : st.links.length = st.base) :
    ∃ completion s, st.previous = some completion.kind ∧ st.operands completion = [s] := by
  obtain ⟨completion, hprevious⟩ := exists_completion hends
  have held := h.operands completion
  rw [if_pos ⟨hprevious, length⟩] at held
  obtain ⟨s, hs⟩ := List.length_eq_one_iff.1 held
  exact ⟨completion, s, hprevious, hs⟩

private theorem operands_eq_nil_of_length (h : st.Invariant)
    (length : st.links.length = st.base + 1)
    (completion : Completion) : st.operands completion = [] := by
  have held := h.operands completion
  rw [if_neg fun both ↦ by omega] at held
  exact List.length_eq_zero_iff.1 held

/-- No negation waits after another token. -/
theorem negations_eq_nil (h : st.Invariant) (hprevious : st.previous ≠ some .neg) :
    st.negations = [] := h.negations.trans (if_neg hprevious)

private theorem beginOperand_eq (h : st.Invariant) :
    ∃ role negated st', st.beginOperand = .ok (role, negated, st') ∧ st'.links = st.links ∧
      (role = .argument → st.links.length = st.base + 1 ∧ st.endsOperand = false) := by
  have distinct : Role.leading ≠ .argument := by decide
  rw [beginOperand, endsOperand]
  cases hprevious : st.previous with
  | none => exact ⟨.leading, false, st, rfl, rfl, fun h ↦ absurd h distinct⟩
  | some kind =>
    cases kind with
    | neg =>
      have waiting := h.negations.trans (if_pos hprevious)
      refine ⟨st.role, true, { st with negations := [] }, ?_, rfl, ?_⟩
      · simp only [waiting, hprevious]
      · intro hrole
        have away : st.links.length ≠ st.base := by
          intro level
          rw [State.role, if_pos level] at hrole
          exact distinct hrole
        exact ⟨h.length_cases.resolve_left away, rfl⟩
    | connective op =>
      exact ⟨.argument, false, st, rfl, rfl, fun _ ↦ ⟨(h.connected op hprevious).2, rfl⟩⟩
    | lparen => exact ⟨.leading, false, st, rfl, rfl, fun h ↦ absurd h distinct⟩
    | rparen => exact ⟨.leading, false, st, rfl, rfl, fun h ↦ absurd h distinct⟩
    | const => exact ⟨.leading, false, st, rfl, rfl, fun h ↦ absurd h distinct⟩
    | var => exact ⟨.leading, false, st, rfl, rfl, fun h ↦ absurd h distinct⟩

/-- The negation before an operand waits for it. -/
theorem begins (h : st.Invariant) : ∃ begun, st.beginOperand = .ok begun := by
  obtain ⟨role, negated, st', hbegin, -⟩ := h.beginOperand_eq
  exact ⟨(role, negated, st'), hbegin⟩

/-- The link before an argument waits for it. -/
theorem attaches (h : st.Invariant) {negated : Bool} {st' : State}
    (hbegin : st.beginOperand = .ok (.argument, negated, st')) (operand : Sentence)
    (token : Token) : ∃ st'', st'.attach operand token = .ok st'' := by
  obtain ⟨role, _, _, hbegun, hkept, hargument⟩ := h.beginOperand_eq
  cases hbegin.symm.trans hbegun
  obtain ⟨length, hends⟩ := hargument rfl
  obtain ⟨outer, -, ⟨level, -⟩ | ⟨link, -, hlinks, hrhs⟩⟩ := h.exists_outer
  · omega
  · have waits : link.rhs? = none := by simpa using hrhs.trans hends
    exact st'.exists_attach (hkept.trans hlinks) waits operand token

/-- A group that may close follows a complete operand. -/
theorem endsOperand_of_refusal?_rparen (h : st.Invariant) (hframes : st.frames ≠ [])
    (hrefusal : st.refusal? .rparen = none) : st.endsOperand = true := by
  rcases st.endsOperand_or_previous with hends | hprevious | hprevious | hprevious | ⟨op, hprevious⟩
  · exact hends
  · exact absurd (h.started hprevious).1 hframes
  · simp [refusal?, hframes, hprevious] at hrefusal
  · simp [refusal?, hframes, hprevious] at hrefusal
  · simp [refusal?, hframes, hprevious] at hrefusal

/-- A sentence that lacks nothing ends with a complete operand. -/
theorem endsOperand_of_refusalAtEnd? (h : st.Invariant) (hrefusal : st.refusalAtEnd? = none) :
    st.endsOperand = true := by
  have hframes := frames_of_refusalAtEnd? hrefusal
  rcases st.endsOperand_or_previous with hends | hprevious | hprevious | hprevious | ⟨op, hprevious⟩
  · exact hends
  · have noneWaits := h.negations_eq_nil (by simp [hprevious])
    simp [refusalAtEnd?, hframes, noneWaits, hprevious] at hrefusal
  · exact absurd hframes (h.opened hprevious).1
  · have waiting := h.negations.trans (if_pos hprevious)
    simp [refusalAtEnd?, hframes, waiting] at hrefusal
  · have noneWaits := h.negations_eq_nil (by simp [hprevious])
    simp [refusalAtEnd?, hframes, noneWaits, hprevious] at hrefusal

/-- The sentence of a group is its link, or in hand if it has none, and the group has its place. -/
theorem closes (h : st.Invariant) {frame : Frame} {below : List Frame}
    (hframes : st.frames = frame :: below) (hrefusal : st.refusal? .rparen = none) :
    ∃ inner st',
      (if frame.base < st.links.length then
        { st with frames := below }.popLink = .ok (inner, st')
      else
        { st with frames := below }.popOperand? = some (inner, st')) ∧
      ∃ st'', st'.placeGroup frame inner = .ok st'' := by
  have hends := h.endsOperand_of_refusal?_rparen (by simp [hframes]) hrefusal
  have base : st.base = frame.base := by rw [base_eq_outside, hframes]; rfl
  -- The frame goes first; what the group holds and the place it needs lie below.
  let opened : State := { st with frames := below }
  obtain ⟨outer, houter, place⟩ := h.exists_outer
  rw [hframes] at houter
  rcases place with ⟨level, hlinks⟩ | ⟨link, length, hlinks, hrhs⟩
  · obtain ⟨completion, s, hprevious, hheld⟩ := h.exists_held hends level
    have inHand : opened.operands completion = [s] := by
      rw [← hheld]
      cases completion <;> rfl
    obtain ⟨st', htaken, hkept⟩ := opened.popOperand?_eq hprevious inHand
    refine ⟨s, st', ?_, st'.exists_placeGroup houter (hkept.trans hlinks) s⟩
    rw [if_neg (by omega)]
    exact htaken
  · obtain ⟨s, htaken⟩ := opened.popLink_eq hlinks (hrhs.trans hends)
    refine ⟨s, { opened with links := Position.outerLinks outer }, ?_,
      exists_placeGroup _ houter rfl s⟩
    rw [if_pos (by omega)]
    exact htaken

/-- The left operand of a connective is in hand, or it is the link before. -/
theorem connects (h : st.Invariant) (hends : st.endsOperand = true)
    (notHeld : st.popOperand? = none) :
    st.base < st.links.length ∧ ∃ taken, st.popLink = .ok taken := by
  obtain ⟨outer, -, ⟨level, -⟩ | ⟨link, length, hlinks, hrhs⟩⟩ := h.exists_outer
  · obtain ⟨completion, s, hprevious, hheld⟩ := h.exists_held hends level
    obtain ⟨st', htaken, -⟩ := st.popOperand?_eq hprevious hheld
    rw [notHeld] at htaken
    cases htaken
  · obtain ⟨s, htaken⟩ := st.popLink_eq hlinks (hrhs.trans hends)
    exact ⟨by omega, _, htaken⟩

private theorem links_of_groups (h : st.Invariant) (hframes : st.frames = [])
    (hgroups : st.groups ≠ []) : st.links = [] := by
  rcases h.length_cases with level | length
  · exact List.length_eq_zero_iff.1 (level.trans (base_eq_zero hframes))
  · exact absurd (h.operands_eq_nil_of_length length .group) hgroups

private theorem ends_in_hand (h : st.Invariant) (hends : st.endsOperand = true)
    (level : st.links.length = st.base) (noLinks : st.links = []) :
    ∃ s rest, st.body = .ok (s, rest) ∧
      rest.consts = [] ∧ rest.vars = [] ∧ rest.groups = [] ∧ rest.links = [] := by
  obtain ⟨completion, s, hprevious, hheld⟩ := h.exists_held hends level
  have others (kind : Completion) (hkind : completion.kind ≠ kind.kind) :
      st.operands kind = [] := by
    refine h.operands_eq_nil ?_
    rw [hprevious]
    exact fun same ↦ hkind (Option.some.inj same)
  cases completion with
  | const =>
    have consts : st.consts = [s] := hheld
    have vars : st.vars = [] := others .var (by decide)
    have groups : st.groups = [] := others .group (by decide)
    refine ⟨s, { st with consts := [] }, ?_, rfl, vars, groups, noLinks⟩
    rw [body, groups, consts]
  | var =>
    have consts : st.consts = [] := others .const (by decide)
    have vars : st.vars = [s] := hheld
    have groups : st.groups = [] := others .group (by decide)
    refine ⟨s, { st with vars := [] }, ?_, consts, rfl, groups, noLinks⟩
    rw [body, groups, consts, vars]
  | group =>
    have consts : st.consts = [] := others .const (by decide)
    have vars : st.vars = [] := others .var (by decide)
    have groups : st.groups = [s] := hheld
    refine ⟨s, { st with groups := [] }, ?_, consts, vars, rfl, noLinks⟩
    rw [body, groups, noLinks]
    rfl

private theorem ends_in_link (h : st.Invariant) (hends : st.endsOperand = true)
    (length : st.links.length = st.base + 1) (base : st.base = 0) :
    ∃ s rest, st.body = .ok (s, rest) ∧
      rest.consts = [] ∧ rest.vars = [] ∧ rest.groups = [] ∧ rest.links = [] := by
  have consts : st.consts = [] := h.operands_eq_nil_of_length length .const
  have vars : st.vars = [] := h.operands_eq_nil_of_length length .var
  have groups : st.groups = [] := h.operands_eq_nil_of_length length .group
  obtain ⟨link, hlinks⟩ := List.length_eq_one_iff.1 (length.trans (congrArg (· + 1) base))
  have newest : st.links[0]? = some link := by rw [hlinks]; rfl
  have complete : link.rhs?.isSome = true := (h.rhs 0 link newest).2 ⟨rfl, length, hends⟩
  obtain ⟨s, htaken⟩ := st.popLink_eq hlinks complete
  refine ⟨s, { st with links := [] }, ?_, consts, vars, groups, rfl⟩
  rw [st.body_eq_popLink groups consts vars (by rw [hlinks]; exact List.cons_ne_nil link [])]
  exact htaken

/-- The sentence at the end is in hand or is the only link, and nothing else is left. -/
theorem ends (h : st.Invariant) (hrefusal : st.refusalAtEnd? = none) :
    ∃ s rest, st.body = .ok (s, rest) ∧
      rest.consts = [] ∧ rest.vars = [] ∧ rest.groups = [] ∧ rest.links = [] := by
  have base := base_eq_zero (frames_of_refusalAtEnd? hrefusal)
  have hends := h.endsOperand_of_refusalAtEnd? hrefusal
  rcases h.length_cases with level | length
  · exact h.ends_in_hand hends level (List.length_eq_zero_iff.1 (level.trans base))
  · exact h.ends_in_link hends length base

/-- With the invariant every handler finds what it takes. -/
theorem supplied (h : st.Invariant) : st.Supplied where
  begins := h.begins
  attaches _ _ := h.attaches
  closes _ _ := h.closes
  connects := h.connects
  groups := h.links_of_groups
  ends := h.ends

end Invariant

end State

end Sentential.Parse
