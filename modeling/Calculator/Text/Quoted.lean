import Calculator.Text
import Calculator.Text.Printable

/-! Quoted texts. Single quotes are used unless the text holds a single quote and no double
quote. The quote in use, the backslash and every unprintable character are escaped, so a
quoted text stays on one line. -/

set_option autoImplicit false

namespace Calculator.Text

def quoteOf (t : Text) : Char :=
  if t.contains '\'' && !t.contains '"' then '"' else '\''

def escape (quote c : Char) : Text :=
  if c == quote || c == '\\' then ['\\', c]
  else if c == '\n' then ['\\', 'n']
  else if c == '\r' then ['\\', 'r']
  else if c == '\t' then ['\\', 't']
  else if isPrintable c then [c]
  else if c.toNat < 0x100 then '\\' :: 'x' :: hex 2 c.toNat
  else if c.toNat < 0x10000 then '\\' :: 'u' :: hex 4 c.toNat
  else '\\' :: 'U' :: hex 8 c.toNat

def quoted (t : Text) : Text :=
  quoteOf t :: t.flatMap (escape (quoteOf t)) ++ [quoteOf t]

end Calculator.Text
