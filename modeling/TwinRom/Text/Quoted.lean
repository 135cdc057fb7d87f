import TwinRom.Text.Printable

/-!
# Quoted text

A text between quotation marks, on one line and in printable characters. The mark itself and
the backslash are written with a backslash before them, tab, line feed, carriage return and NUL
by a letter, and any other character that is not printable by its code point in braces.
-/

namespace TwinRom.Text

/-- One character inside quotation marks `mark`. -/
def quotedChar (mark c : Char) : Text :=
  if c = mark ∨ c = '\\' then ['\\', c]
  else if c = '\t' then ['\\', 't']
  else if c = '\n' then ['\\', 'n']
  else if c = '\r' then ['\\', 'r']
  else if c = '\x00' then ['\\', '0']
  else if isPrintable c then [c]
  else ['\\', 'u', '\x7b'] ++ Nat.toDigits 16 c.toNat ++ ['\x7d']

/-- A text between quotation marks `mark`. -/
def quotedBy (mark : Char) (t : Text) : Text :=
  mark :: t.flatMap (quotedChar mark) ++ [mark]

/-- A text between double quotation marks. -/
def quoted (t : Text) : Text := quotedBy '"' t

end TwinRom.Text
