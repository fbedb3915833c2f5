import Sentential.Journal.Basic
import Sentential.Parse.State
import Sentential.Sentence.Variables
import Sentential.Token.Lex

/-!
# Parsing

From tokens, or from text, to the sentence that they write. `parse_eq` says that
parsing is the fold of the parser's step over the tokens, ended by `State.finish`.
-/

namespace Sentential

namespace Parse.State

/-- Takes tokens one after the other, up to the first fault. -/
def run (st : State) (tokens : List Token) : Except ParseError State := tokens.foldlM step st

/-- Takes tokens one after the other, up to the first fault, and reports each of
them before it is taken. -/
def runM (st : State) : List Token → JournalM (Except ParseError State)
  | [] => return .ok st
  | token :: rest => do
    JournalM.record (.reached token st.previous)
    match st.step token with
    | .ok st => st.runM rest
    | .error e => return .error e

private theorem fst_run_runM (st : State) (tokens : List Token) (j : Journal) :
    ((st.runM tokens).run j).1 = st.run tokens := by
  induction tokens generalizing st j with
  | nil => rfl
  | cons token rest ih =>
    rw [runM, run, List.foldlM_cons]
    cases h : st.step token with
    | ok st' => exact ih st' _
    | error e => rfl

end Parse.State

open Parse

/-- Reports a sentence made of `count` tokens; a failure is not reported. -/
def reportParsed (count : Nat) : Except ParseError Sentence → JournalM Unit
  | .ok s => JournalM.record (.parsed count s.size s.vars.length)
  | .error _ => return ()

/-- Reads a list of tokens as a sentence, with reports. -/
def parseM (tokens : List Token) : JournalM (Except ParseError Sentence) := do
  let outcome ← State.start.runM tokens
  let result := outcome.bind State.finish
  reportParsed tokens.length result
  return result

/-- Reads a list of tokens as a sentence. -/
def parse (tokens : List Token) : Except ParseError Sentence := (parseM tokens).value

/-- Parsing takes all tokens from the start and then ends the sentence. -/
theorem parse_eq (tokens : List Token) :
    parse tokens = (State.start.run tokens).bind State.finish :=
  congrArg (Except.bind · State.finish) (State.fst_run_runM State.start tokens .silent)

/-- The tokens of a text, with a report. -/
def lexM (text : String) : JournalM (List Token) := do
  let tokens := lex text
  JournalM.record (.lexed text tokens.length)
  return tokens

/-- Reads a text as a sentence, with reports. -/
def readM (text : String) : JournalM (Except ParseError Sentence) := do
  parseM (← lexM text)

/-- Reads a text as a sentence. -/
def read (text : String) : Except ParseError Sentence := parse (lex text)

/-- Reading a text with reports gives the same sentence or fault. -/
theorem value_readM (text : String) : (readM text).value = read text := rfl

end Sentential
