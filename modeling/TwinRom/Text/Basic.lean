/-!
# Texts

A text is a list of characters. Sources, operands, paths and text images are read and
written in this form; `String` appears only where a message is put together.

`Text.isBlank` is the class of blank characters, `Text.trim` drops them from both ends and
`Text.words` splits at them. `Text.lines` cuts a text at its line ends, where `"\r\n"` counts
as one line end. `Text.lower` folds the letters `A` to `Z` and touches nothing else.
-/

namespace TwinRom

/-- A text, character by character. -/
abbrev Text := List Char

namespace Text

/-! ## Blank characters -/

/-- The characters with the Unicode property White_Space. -/
def isBlank (c : Char) : Bool :=
  let n := c.toNat
  (0x09 ≤ n && n ≤ 0x0D) || n == 0x20 || n == 0x85 || n == 0xA0 || n == 0x1680 ||
    (0x2000 ≤ n && n ≤ 0x200A) || n == 0x2028 || n == 0x2029 || n == 0x202F ||
    n == 0x205F || n == 0x3000

/-- The text without the blank characters at its start. -/
def trimStart (t : Text) : Text := t.dropWhile isBlank

/-- The text without the blank characters at its end. -/
def trimEnd (t : Text) : Text := (t.reverse.dropWhile isBlank).reverse

/-- The text without the blank characters at its two ends. -/
def trim (t : Text) : Text := trimEnd (trimStart t)

@[simp] theorem trim_nil : trim [] = [] := rfl

/-- The maximal runs of characters that are not blank. -/
def words (t : Text) : List Text := (t.splitOnP isBlank).filter fun w => !w.isEmpty

/-! ## Lines -/

/-- Puts a character in front of the first of some pieces, which it starts if there is none. -/
def consHead (c : Char) : List Text → List Text
  | [] => [[c]]
  | w :: ws => (c :: w) :: ws

/-- The lines of a text. A line ends at `"\n"` or at `"\r\n"`, the last one also at the end
of the text; a line end at the very end opens no further line. -/
def lines : Text → List Text
  | [] => []
  | '\n' :: cs => [] :: lines cs
  | '\r' :: '\n' :: cs => [] :: lines cs
  | c :: cs => consHead c (lines cs)

@[simp] theorem lines_nil : lines [] = [] := by rw [lines]

@[simp] theorem lines_newline (cs : Text) : lines ('\n' :: cs) = [] :: lines cs := by rw [lines]

@[simp] theorem lines_return_newline (cs : Text) :
    lines ('\r' :: '\n' :: cs) = [] :: lines cs := by rw [lines]

/-! ## Letter case -/

/-- The text with the letters `A` to `Z` in lower case. -/
def lower (t : Text) : Text := t.map Char.toLower

@[simp] theorem length_lower (t : Text) : (lower t).length = t.length := by simp [lower]

end Text

end TwinRom
