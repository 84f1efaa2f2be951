import RelQuery.Text.PrintableTable
import RelQuery.Text.Case

/-! Texts in double quotes, as messages show them: a quote, a backslash and the four short controls
are escaped by a letter, and any other character that would not be seen on its own by its code
point. -/
namespace RelQuery.Text

def hexDigit (n : Nat) : Char := (Nat.toDigits 16 (n % 16)).headD '0'

def hexCode (n : Nat) : List Char := Nat.toDigits 16 n

def escapeChar (c : Char) : List Char :=
  if c = '"' then ['\\', '"']
  else if c = '\\' then ['\\', '\\']
  else if c = '\n' then ['\\', 'n']
  else if c = '\r' then ['\\', 'r']
  else if c = '\t' then ['\\', 't']
  else if c.toNat = 0 then ['\\', '0']
  else if inRanges extendingRanges c || inRanges unprintableRanges c then
    ['\\', 'u', '\x7b'] ++ hexCode c.toNat ++ ['\x7d']
  else [c]

def quoted (s : String) : String :=
  String.ofList ('"' :: s.toList.flatMap escapeChar ++ ['"'])

end RelQuery.Text
