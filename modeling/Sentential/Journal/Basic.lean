import Sentential.Journal.Event

/-!
# Journals

A computation that reports its progress runs with a journal, which keeps the
reports of the level asked for. What a computation returns and what it reports do
not depend on the journal that it runs with: `JournalM.Yields` says so, with one
rule for each way to build a computation.
-/

namespace Sentential

/-- The reports kept so far, and the level down to which reports are kept, if any. -/
structure Journal where
  level : Option Level
  entries : Array Event
deriving Repr

namespace Journal

/-- A journal that keeps nothing. -/
def silent : Journal := ⟨none, #[]⟩

/-- An empty journal that keeps the reports of a level. -/
def atLevel (level : Level) : Journal := ⟨some level, #[]⟩

/-- Adds a report at the end, if the journal keeps reports of its level. -/
def add (j : Journal) (e : Event) : Journal :=
  if j.level.any (·.keeps e.level) then { j with entries := j.entries.push e } else j

/-- A journal ends up with the reports of its level, in order. -/
theorem entries_foldl_add (j : Journal) (es : List Event) :
    (es.foldl add j).entries.toList =
      j.entries.toList ++ es.filter fun e ↦ j.level.any (·.keeps e.level) := by
  induction es generalizing j with
  | nil => simp
  | cons e es ih =>
    rw [List.foldl_cons, ih, add]
    split
    · next h => simp [h]
    · next h => simp [h]

end Journal

/-- A computation that reports its progress. -/
abbrev JournalM := StateM Journal

namespace JournalM

/-- Reports an event. -/
def record (e : Event) : JournalM Unit := modify (·.add e)

/-- Result of the computation, with no report kept. -/
def value {α : Type} (x : JournalM α) : α := (x.run .silent).1

/-- All reports of the computation, in order. -/
def events {α : Type} (x : JournalM α) : List Event := (x.run (.atLevel .trace)).2.entries.toList

/-- Whatever journal the computation runs with, it returns `v` and reports `es`. -/
def Yields {α : Type} (x : JournalM α) (v : α) (es : List Event) : Prop :=
  ∀ j, x.run j = (v, es.foldl Journal.add j)

namespace Yields

variable {α β : Type} {x : JournalM α} {v : α} {es : List Event}

/-- The result of a computation that yields `v`. -/
theorem value_eq (h : Yields x v es) : x.value = v := congrArg Prod.fst (h .silent)

/-- The reports of a computation that yields them. -/
theorem events_eq (h : Yields x v es) : x.events = es := by
  rw [events, h, Journal.entries_foldl_add]
  simp [Journal.atLevel, Level.keeps]

/-- What a computation yields is its result and its reports. -/
theorem observed (h : Yields x v es) : x.Yields x.value x.events := by
  rw [h.value_eq, h.events_eq]
  exact h

/-- Returning a value reports nothing. -/
theorem pure (v : α) : Yields (Pure.pure v) v [] := fun _ ↦ rfl

/-- Reporting an event. -/
theorem record (e : Event) : Yields (JournalM.record e) () [e] := fun _ ↦ rfl

/-- Two computations in sequence report in sequence. -/
theorem bind {f : α → JournalM β} {w : β} {fs : List Event} (hx : Yields x v es)
    (hf : Yields (f v) w fs) : Yields (x >>= f) w (es ++ fs) := fun j ↦ by
  rw [StateT.run_bind, hx j, List.foldl_append]
  exact hf _

/-- Turning the result into another one reports nothing more. -/
theorem map (f : α → β) (h : Yields x v es) :
    (x >>= fun result ↦ Pure.pure (f result)).Yields (f v) es := by
  rw [← List.append_nil es]
  exact h.bind (.pure (f v))

end Yields

end JournalM

end Sentential
