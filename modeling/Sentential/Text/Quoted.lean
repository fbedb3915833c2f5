import Sentential.Text.Printable

/-!
# Quoted text

Text between double quotes, with a backslash escape for the quote, the backslash
and every character that is not printable.
-/

namespace Sentential.Text

/-- The number in base sixteen, in lower case and without leading zeros. -/
def hexDigits (n : Nat) : String := String.ofList (Nat.toDigits 16 n)

/-- A character inside quoted text. A single quote stands as it is. -/
def quoteChar (c : Char) : String :=
  match c with
  | '\x00' => "\\0"
  | '\t' => "\\t"
  | '\n' => "\\n"
  | '\r' => "\\r"
  | '"' => "\\\""
  | '\\' => "\\\\"
  | c => if isPrintable c then c.toString else "\\u\x7b" ++ hexDigits c.toNat ++ "\x7d"

/-- The text in double quotes. -/
def quote (text : String) : String :=
  "\"" ++ String.join (text.toList.map quoteChar) ++ "\""

end Sentential.Text
