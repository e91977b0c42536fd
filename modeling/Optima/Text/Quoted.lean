import Optima.Text.Visible

/-!
Quoted text. A text stands between single quotes, or between double quotes if it holds a single
quote and no double one. The chosen quote, the backslash and what cannot be seen on paper are
written with a backslash; every visible character stands for itself.
-/

namespace Optima.Text

def hexadecimal (width n : Nat) : List Char :=
  let text := Nat.toDigits 16 n
  List.replicate (width - text.length) '0' ++ text

def escape (quote c : Char) : List Char :=
  if c == quote || c == '\\' then ['\\', c]
  else if c == '\n' then ['\\', 'n']
  else if c == '\r' then ['\\', 'r']
  else if c == '\t' then ['\\', 't']
  else if isVisible c then [c]
  else if c.toNat < 0x100 then '\\' :: 'x' :: hexadecimal 2 c.toNat
  else if c.toNat < 0x10000 then '\\' :: 'u' :: hexadecimal 4 c.toNat
  else '\\' :: 'U' :: hexadecimal 8 c.toNat

def quoted (text : String) : String :=
  let cs := text.toList
  let quote := if cs.contains '\x27' && !cs.contains '\x22' then '\x22' else '\x27'
  String.ofList (quote :: cs.flatMap (escape quote) ++ [quote])

def bracketed (items : List String) : String := "[" ++ ", ".intercalate items ++ "]"

end Optima.Text
