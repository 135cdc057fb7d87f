import TwinRom.Text.Utf8

/-!
# Plain text

A text as a terminal without colours is given it. Control characters are left out, apart from
tab, line feed, form feed and carriage return, and so are control sequences: an escape character
with what belongs to it.

`Text.Control` says in which part of a sequence a reader stands, and `Text.Control.after` how one
character moves the reader on. Tab, line feed, form feed and carriage return are shown even in the
middle of a sequence, unless it is a string (`Text.Control.reveals`). They interrupt it: what
follows is shown too, up to the next control character, and there the sequence goes on.
-/

namespace TwinRom.Text

/-- Where a reader stands with respect to control sequences. -/
inductive Control where
  /-- Outside of any. -/
  | outside
  /-- Right after an escape character. -/
  | escape
  /-- In an escape sequence of more than two characters. -/
  | escapeTail
  /-- In a sequence with parameters, which a letter ends. -/
  | parameters
  /-- In a command of the operating system, which a bell ends. -/
  | command
  /-- At the start of a device control string. -/
  | device
  /-- In the parameters of a device control string. -/
  | deviceParameters
  /-- Between the parameters and the body of a device control string. -/
  | deviceTail
  /-- In a string that a string terminator ends. -/
  | string
  deriving DecidableEq

namespace Control

/-- The control characters that lay out a text. -/
def isLayout (c : Char) : Bool := c == '\t' || c == '\n' || c == '\x0c' || c == '\r'

/-- The control characters of ASCII. -/
def isControl (c : Char) : Bool := decide (c.toNat < 0x20) || c.toNat == 0x7F

/-- What is shown outside of a sequence. -/
def isVisible (c : Char) : Bool := !isControl c || isLayout c

/-- Whether a character is one of ASCII between two codes. -/
def inRange (low high : Nat) (c : Char) : Bool :=
  decide (low ≤ c.toNat) && decide (c.toNat ≤ high)

/-- The string terminator is a byte, and it is also found inside of longer characters. -/
def isTerminator (c : Char) : Bool := (Utf8.encode [c]).contains 0x9C

/-- What the character after an escape character starts. -/
def afterEscape (c : Char) : Control :=
  if c = '[' then .parameters
  else if c = ']' then .command
  else if c = 'P' then .device
  else if c = 'X' ∨ c = '^' ∨ c = '_' then .string
  else if inRange 0x20 0x2F c then .escapeTail
  else if inRange 0x30 0x7E c then .outside
  else .escape

/-- Where a device control string stands after a character: blanks and signs lead to its tail,
digits and separators to its parameters, and a letter to its body. -/
def afterDevice (c : Char) : Control :=
  if inRange 0x20 0x2F c then .deviceTail
  else if inRange 0x30 0x3F c then .deviceParameters
  else if inRange 0x40 0x7E c then .string
  else .device

/-- Where the reader stands after a character that is not shown. -/
def after (state : Control) (c : Char) : Control :=
  if c = '\x1b' then .escape
  else if c = '\x18' ∨ c = '\x1a' then .outside
  else
    match state with
    | outside => .outside
    | escape => afterEscape c
    | escapeTail => if inRange 0x30 0x7E c then .outside else .escapeTail
    | parameters => if inRange 0x40 0x7E c then .outside else .parameters
    | command => if c = '\x07' then .outside else .command
    | device => afterDevice c
    | deviceParameters =>
      if inRange 0x20 0x2F c then .deviceTail
      else if inRange 0x3C 0x7E c then .string
      else .deviceParameters
    | deviceTail => if inRange 0x30 0x7E c then .string else .deviceTail
    | string => if isTerminator c then .outside else .string

/-- Whether a character is shown to a reader who stands in a sequence. -/
def reveals (state : Control) (c : Char) : Bool :=
  match state with
  | outside => isVisible c
  | escape | escapeTail | parameters => isLayout c
  | _ => false

/-- What is shown of a text. While the text is `flowing`, a sequence that was interrupted waits;
a character beyond ASCII makes an end of it. -/
def shown (flowing : Bool) (state : Control) : Text → Text
  | [] => []
  | c :: cs =>
    if flowing && isVisible c then
      c :: shown true (if c.toNat < 0x80 then state else .outside) cs
    else if state.reveals c then c :: shown true state cs
    else shown false (state.after c) cs

end Control

/-- A text without control characters and control sequences. -/
def plain (t : Text) : Text := Control.shown true .outside t

end TwinRom.Text
