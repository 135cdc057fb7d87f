import TwinRom.Json.Fault
import TwinRom.Text.Numeral
import TwinRom.Text.Utf8

/-!
# JSON strings

What stands between the quotation marks of a JSON string. `StringBody.scan` splits it into units:
a character, or the number in a `\u` escape. A number may be half of a surrogate pair, so the
units become a text only in a second step (`StringBody.text`), which looks at two units at a time.
A string that is merely skipped needs no second step.
-/

namespace TwinRom.Json

/-- A unit of a string. -/
inductive StringBody.Unit where
  /-- A character, written plainly or by a short escape. -/
  | char (c : Char)
  /-- The number in a `\u` escape. -/
  | code (n : Nat)
  deriving DecidableEq

/-- How the units of a string end. -/
inductive StringBody.Ending where
  /-- A quotation mark, with what follows it. -/
  | closed (rest : Text)
  /-- The text ends inside the string. -/
  | cutOff
  /-- A control character. -/
  | control
  /-- A backslash before a character that makes no escape. -/
  | badEscape
  /-- A `\u` without four hexadecimal digits. -/
  | badCode
  deriving DecidableEq

/-- The inside of a string. -/
structure StringBody where
  /-- The units up to the end or the first defect. -/
  units : List StringBody.Unit
  /-- How they end. -/
  ending : StringBody.Ending
  deriving DecidableEq

namespace StringBody

/-- The body with one more unit in front. -/
def cons (u : StringBody.Unit) (b : StringBody) : StringBody := ⟨u :: b.units, b.ending⟩

/-- The character that a short escape stands for. -/
def shortEscape? : Char → Option Char
  | '"' => some '"'
  | '\\' => some '\\'
  | '/' => some '/'
  | 'b' => some '\x08'
  | 'f' => some '\x0c'
  | 'n' => some '\n'
  | 'r' => some '\r'
  | 't' => some '\t'
  | _ => none

/-- The defect of a `\u` escape that four hexadecimal digits do not follow: the text may be too
short to hold four bytes. -/
def codeDefect (t : Text) : Ending := if (Utf8.encode t).length < 4 then .cutOff else .badCode

/-- Splits a string, from behind its opening mark, into units. -/
def scan : Text → StringBody
  | [] => ⟨[], .cutOff⟩
  | '"' :: cs => ⟨[], .closed cs⟩
  | ['\\'] => ⟨[], .cutOff⟩
  | '\\' :: 'u' :: a :: b :: c :: d :: cs =>
    match Text.nat? 16 [a, b, c, d] with
    | some n => cons (.code n) (scan cs)
    | none => ⟨[], codeDefect (a :: b :: c :: d :: cs)⟩
  | '\\' :: 'u' :: cs => ⟨[], codeDefect cs⟩
  | '\\' :: e :: cs =>
    match shortEscape? e with
    | some c => cons (.char c) (scan cs)
    | none => ⟨[], .badEscape⟩
  | c :: cs => if c.toNat < 0x20 then ⟨[], .control⟩ else cons (.char c) (scan cs)

/-- What follows a string is shorter than the string. -/
theorem rest_lt : ∀ {t rest : Text}, (scan t).ending = .closed rest → rest.length < t.length := by
  intro t rest h
  fun_induction scan t with
  | case1 => cases h
  | case2 cs => cases h; exact Nat.lt_succ_self _
  | case3 => cases h
  | case4 a b c d cs n hn ih =>
    have := ih h
    simp only [List.length_cons]
    omega
  | case5 a b c d cs hn =>
    simp only [codeDefect] at h
    split at h <;> cases h
  | case6 cs =>
    simp only [codeDefect] at h
    split at h <;> cases h
  | case7 e cs _ _ c hc ih =>
    have := ih h
    simp only [List.length_cons]
    omega
  | case8 => cases h
  | case9 => cases h
  | case10 c cs _ _ _ _ _ _ ih =>
    have := ih h
    simp only [List.length_cons]
    omega

/-- The fault in a string that is skipped. -/
def defect? (b : StringBody) : Option Fault :=
  match b.ending with
  | .closed _ => none
  | .cutOff => some .endInString
  | .control => some .controlCharacter
  | .badEscape => some .invalidEscape
  | .badCode => some .invalidEscape

/-- The leading surrogates. -/
def isLeading (n : Nat) : Bool := 0xD800 ≤ n && n ≤ 0xDBFF

/-- The trailing surrogates. -/
def isTrailing (n : Nat) : Bool := 0xDC00 ≤ n && n ≤ 0xDFFF

/-- The character of a surrogate pair. -/
def pair (leading trailing : Nat) : Char :=
  Char.ofNat ((leading - 0xD800) * 0x400 + (trailing - 0xDC00) + 0x10000)

/-- The fault of a leading surrogate behind which the units end. -/
def unpaired : Ending → Fault
  | .cutOff => .endInString
  | .badCode => .invalidEscape
  | _ => .unfinishedSurrogate

/-- Joins units to a text, given how they end and the fault in that. -/
def join (ending : Ending) (defect? : Option Fault) : List StringBody.Unit → Except Fault Text
  | [] =>
    match defect? with
    | none => .ok []
    | some fault => .error fault
  | .char c :: us => (join ending defect? us).map (c :: ·)
  | .code n :: us =>
    if isTrailing n then .error .loneSurrogate
    else if isLeading n then
      match us with
      | [] => .error (unpaired ending)
      | .char _ :: _ => .error .unfinishedSurrogate
      | .code k :: us =>
        if isTrailing k then (join ending defect? us).map (pair n k :: ·)
        else .error .loneSurrogate
    else (join ending defect? us).map (Char.ofNat n :: ·)

/-- The text of a string, or the first fault in it. -/
def text (b : StringBody) : Except Fault Text := join b.ending b.defect? b.units

end StringBody

end TwinRom.Json
