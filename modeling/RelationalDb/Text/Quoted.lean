import RelationalDb.Text.Invisible

/-!
# Quoted text

Text is written between double quotes.  The quote and the backslash are escaped, as are
the characters that leave no mark of their own.  The frequent ones have a letter of their
own, the others are written by their code point in hexadecimal.
-/

namespace RelationalDb

namespace Quoted

/-- A character as it stands between the quotes. -/
def escape (c : Char) : String :=
  match c with
  | '"' => "\\\""
  | '\\' => "\\\\"
  | '\n' => "\\n"
  | '\r' => "\\r"
  | '\t' => "\\t"
  | '\x00' => "\\0"
  | c =>
      if isInvisible c then "\\u\x7b" ++ String.ofList (Nat.toDigits 16 c.toNat) ++ "\x7d"
      else String.singleton c

end Quoted

def quoted (s : String) : String :=
  "\"" ++ String.join (s.toList.map Quoted.escape) ++ "\""

end RelationalDb
