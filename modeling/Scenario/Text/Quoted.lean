import Scenario.Text.Printable

/-!
Quoted text in messages.
-/

namespace Scenario

/-- How a character is written between double quotes. Hidden ones are written by number. -/
def quotedChar (c : Char) : String :=
  match c with
  | '"' => "\\\""
  | '\\' => "\\\\"
  | '\n' => "\\n"
  | '\t' => "\\t"
  | '\r' => "\\r"
  | '\x00' => "\\0"
  | c =>
    if isHidden c then "\\u\x7b" ++ String.ofList (Nat.toDigits 16 c.toNat) ++ "\x7d"
    else c.toString

def quoted (s : String) : String := "\"" ++ String.join (s.toList.map quotedChar) ++ "\""

end Scenario
