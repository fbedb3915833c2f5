import Sentential.Semantics.Scan

/-!
# Validity, satisfiability and entailment

The classical questions about a sentence, each answered by a scan of its models.
The names that end in `M` report their progress; the others give the answer alone.
-/

namespace Sentential.Sentence

/-- Whether the sentence is true in every model. The scan stops at the first model
in which it is false. -/
def isValidM (s : Sentence) : JournalM Bool :=
  s.scan (fun _ _ value ↦ if value then .yield true else .done false) true s.models

/-- Whether the sentence is true in some model. The scan stops at the first one. -/
def isSatisfiableM (s : Sentence) : JournalM Bool :=
  s.scan (fun _ _ value ↦ if value then .done true else .yield false) false s.models

/-- Whether the sentence is true in no model. -/
def isUnsatisfiableM (s : Sentence) : JournalM Bool := do
  return !(← s.isSatisfiableM)

/-- Whether the sentence is true in some models and false in others. Only a sentence
that is not valid is scanned a second time. -/
def isContingentM (s : Sentence) : JournalM Bool := do
  if ← s.isValidM then
    return false
  else
    s.isSatisfiableM

/-- The first model in which the sentence is true. The scan stops there. -/
def oneSatM (s : Sentence) : JournalM (Option Model) :=
  s.scan (fun _ m value ↦ if value then .done (some m) else .yield none) none s.models

/-- The models in which the sentence is true, in the order of the enumeration. -/
def allSatM (s : Sentence) : JournalM (List Model) := do
  let found ← s.scan (fun found m value ↦ .yield (if value then found.push m else found)) #[]
    s.models
  return found.toList

/-- Number of models in which the sentence is true. -/
def satCountM (s : Sentence) : JournalM Nat :=
  s.scan (fun count _ value ↦ .yield (if value then count + 1 else count)) 0 s.models

/-- The value of the sentence in each model, in the order of the enumeration. -/
def valuesM (s : Sentence) : JournalM (List Bool) := do
  let values ← s.scan (fun values _ value ↦ .yield (values.push value)) #[] s.models
  return values.toList

/-- The value of the sentence in each model, with a closing report of their number. -/
def enumerateM (s : Sentence) : JournalM (List Bool) := do
  let values ← s.valuesM
  JournalM.record (.enumerated values.length s.vars.length)
  return values

/-- The first models to come, at most `count` of them, each with the value of the
sentence. -/
def firstResultsM (s : Sentence) : Nat → Enumeration → JournalM (List (Model × Bool))
  | 0, _ => return []
  | count + 1, e =>
    match e.next? with
    | none => return []
    | some (m, rest) => do
      let value ← s.observe m
      let results ← s.firstResultsM count rest
      return (m, value) :: results

/-- The sentence whose models are those of `a` in which `b` is false. -/
def counterexample (a b : Sentence) : Sentence := .binary .and a (.neg b)

/-- Whether `b` is true in every model of `a`: no model refutes it. -/
def entailsM (a b : Sentence) : JournalM Bool := do
  let query := a.counterexample b
  JournalM.record (.refuting query)
  query.isUnsatisfiableM

/-- Whether both sentences have the same models. The second direction is only
looked at if the first one holds. -/
def equivalentM (a b : Sentence) : JournalM Bool := do
  if ← a.entailsM b then
    b.entailsM a
  else
    return false

/-- Whether the sentence is true in every model. -/
def isValid (s : Sentence) : Bool := s.isValidM.value

/-- Whether the sentence is true in some model. -/
def isSatisfiable (s : Sentence) : Bool := s.isSatisfiableM.value

/-- Whether the sentence is true in no model. -/
def isUnsatisfiable (s : Sentence) : Bool := s.isUnsatisfiableM.value

/-- Whether the sentence is true in some models and false in others. -/
def isContingent (s : Sentence) : Bool := s.isContingentM.value

/-- The first model in which the sentence is true. -/
def oneSat (s : Sentence) : Option Model := s.oneSatM.value

/-- The models in which the sentence is true, in the order of the enumeration. -/
def allSat (s : Sentence) : List Model := s.allSatM.value

/-- Number of models in which the sentence is true. -/
def satCount (s : Sentence) : Nat := s.satCountM.value

/-- The value of the sentence in each model, in the order of the enumeration. -/
def enumerate (s : Sentence) : List Bool := s.enumerateM.value

/-- The first models of the sentence, at most `count` of them, each with the value
of the sentence. -/
def firstResults (s : Sentence) (count : Nat) : List (Model × Bool) :=
  (s.firstResultsM count s.models).value

/-- Whether `b` is true in every model of `a`. -/
def entails (a b : Sentence) : Bool := (a.entailsM b).value

/-- Whether both sentences have the same models. -/
def equivalent (a b : Sentence) : Bool := (a.equivalentM b).value

end Sentential.Sentence
