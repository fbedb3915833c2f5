import Sentential.Semantics.Check

/-!
# Truth tables

A truth table pairs the models over a list of names with one result each. It is
written as a header, a rule and one line per model, in columns that are as wide as
their names are long in bytes. The number of models is counted in a machine word
before the results are accepted, and a table can be written if no column is wider
than `maxColumn`.
-/

namespace Sentential

/-- Names of the columns and one result for each model over the names. -/
structure TruthTable where
  names : List String
  results : List Bool
deriving DecidableEq, Repr

/-- A failure to make or to write a truth table. -/
inductive TableError where
  /-- There is not one result for each model. -/
  | wrongSize
  /-- The number of models does not fit a machine word. -/
  | tooManyNames
  /-- A name is too long to fill up its column. -/
  | columnTooWide
deriving DecidableEq, Repr

namespace TableError

/-- The words of the failure. Those of a table that is too large in either direction are
the machine's, which fails to shift by so many places or to pad to such a width. -/
def text : TableError → String
  | .wrongSize => "Truth table needs one result per model"
  | .tooManyNames => "attempt to shift left with overflow"
  | .columnTooWide => "Formatting argument out of range"

/-- The message that comes with the check of the size. The other failures happen outside
that check, and `text` alone has words for them. -/
def message : TableError → String
  | .wrongSize => text .wrongSize
  | .tooManyNames | .columnTooWide => ""

end TableError

/-- What a machine does when a word is shifted by as many places as it has bits, or
by more. -/
inductive Overflow where
  /-- The shift fails. -/
  | checked
  /-- The number of places is taken modulo the number of bits. -/
  | wrapping
deriving DecidableEq, Repr

namespace TruthTable

/-- Width of a machine word in bits. -/
def wordBits : Nat := 64

/-- Width in bytes of the widest column that can be filled up. -/
def maxColumn : Nat := 65535

/-- The number of models over so many names as a machine word: `1` shifted to the left
by the number of names. -/
def modelCount? (overflow : Overflow) (names : Nat) : Option UInt64 :=
  match overflow with
  | .checked => if names < wordBits then some (1 <<< UInt64.ofNat names) else none
  | .wrapping => some (1 <<< UInt64.ofNat names)

/-- The truth table of the given names and results, in the order of the enumeration.
There have to be as many results as the word counts models. -/
def ofResults (names : List String) (results : List Bool) (overflow : Overflow := .checked) :
    Except TableError TruthTable :=
  match modelCount? overflow names.length with
  | none => .error .tooManyNames
  | some count =>
    if results.length = count.toNat then .ok ⟨names, results⟩ else .error .wrongSize

/-- The rows of the table: each model with its result. -/
def rows (t : TruthTable) : List (Model × Bool) :=
  (Enumeration.ofNames t.names).toList.zip t.results

/-- The header names the columns. -/
def header (t : TruthTable) : String :=
  "| ".intercalate (t.names.map (· ++ " ")) ++ "|| *"

/-- A run of one character. -/
def runOf (count : Nat) (c : Char) : String := String.ofList (List.replicate count c)

/-- The rule under the header. -/
def rule (t : TruthTable) : String :=
  "+-".intercalate (t.names.map fun name ↦ runOf (name.utf8ByteSize + 1) '-') ++ "++--"

/-- A truth value in a column of the given name, filled up with spaces. -/
def cell (name : String) (value : Bool) : String :=
  truthLetter value ++ runOf (name.utf8ByteSize - 1) ' ' ++ " "

/-- The line of a row. A column shows the value that the model gives its name. -/
def rowLine (t : TruthTable) (m : Model) (result : Bool) : String :=
  "| ".intercalate (t.names.map fun name ↦ cell name ((m.get? name).getD false)) ++
    "|| " ++ truthLetter result

/-- The lines of the table, from top to bottom. -/
def lines (t : TruthTable) : List String :=
  t.header :: t.rule :: t.rows.map fun row ↦ t.rowLine row.1 row.2

/-- Text of the table; every line ends with a newline. -/
def text (t : TruthTable) : String := String.join (t.lines.map (· ++ "\n"))

/-- Writes the table, unless one of its columns is too wide. -/
def render (t : TruthTable) : Except TableError String :=
  if t.names.all (·.utf8ByteSize ≤ maxColumn) then .ok t.text else .error .columnTooWide

end TruthTable

/-- The truth table of a sentence, with reports. -/
def Sentence.truthTableM (s : Sentence) (overflow : Overflow := .checked) :
    JournalM (Except TableError TruthTable) := do
  return TruthTable.ofResults s.vars (← s.valuesM) overflow

/-- The truth table of a sentence. -/
def Sentence.truthTable (s : Sentence) (overflow : Overflow := .checked) :
    Except TableError TruthTable :=
  (s.truthTableM overflow).value

end Sentential
