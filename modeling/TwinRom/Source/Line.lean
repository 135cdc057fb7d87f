import TwinRom.Source.Fault

/-!
# Lines

A source line is a row of tokens. Spaces, tabs and commas separate them, a semicolon starts a
comment that runs to the end of the line, and a backslash makes the character after it an
ordinary one. The first token names the instruction and the others are its operands.

`Line.scan` walks the line once, from the right end of the recursion back to the left, and
carries the token that is still growing. A line is refused (`Line.tokens`) only if it ends in a
backslash that has nothing to escape.
-/

namespace TwinRom.Line

/-- The characters between tokens. -/
def isSeparator (c : Char) : Bool := c == ' ' || c == '\t' || c == ','

/-- Puts a token in front of others, unless it is empty. -/
def flush (token : Text) (tokens : List Text) : List Text :=
  if token.isEmpty then tokens else token :: tokens

@[simp] theorem flush_nil (tokens : List Text) : flush [] tokens = tokens := rfl

@[simp] theorem flush_cons (c : Char) (t : Text) (tokens : List Text) :
    flush (c :: t) tokens = (c :: t) :: tokens := rfl

/-- The characters with which a text continues a token, and the tokens after that. There is no
answer if the text ends in a backslash that escapes nothing. -/
def scan : Text → Option (Text × List Text)
  | [] => some ([], [])
  | ';' :: _ => some ([], [])
  | ['\\'] => none
  | '\\' :: c :: cs => (scan cs).map fun r => (c :: r.1, r.2)
  | c :: cs =>
    if isSeparator c then (scan cs).map fun r => ([], flush r.1 r.2)
    else (scan cs).map fun r => (c :: r.1, r.2)

/-- What is missing where a line breaks off. -/
def expectation (text : Text) : String :=
  if text = ['\\'] then "expected line" else "expected EOI or token"

/-- The tokens of a line, with their escapes resolved. -/
def tokens (text : Text) : Except Fault (List Text) :=
  match scan text with
  | some (token, rest) => .ok (flush token rest)
  | none => .error (.malformed (expectation text))

end TwinRom.Line
