import TwinRom.Json.Numeral
import TwinRom.Json.StringBody

/-!
# JSON tokens

A JSON text as a row of tokens (`tokens`). Blanks are spaces, tabs, line feeds and carriage
returns. A token that is not well formed is the last one of its row; it still shows by what it
starts with which kind of token it would have been, because a reader may object to that first.
-/

namespace TwinRom.Json

/-- The two kinds of brackets. -/
inductive Bracket where
  /-- The brackets of an array. -/
  | list
  /-- The braces of an object. -/
  | object
  deriving DecidableEq

/-- A token of a JSON text. -/
inductive Token where
  | opening (bracket : Bracket)
  | closing (bracket : Bracket)
  | comma
  | colon
  | null
  | boolean (value : Bool)
  | number (numeral : Except Numeral.Defect Numeral)
  | string (body : StringBody)
  /-- Something that starts no value, or a misspelt name of one. -/
  | broken (fault : Fault)

/-- The blanks between tokens. -/
def isBlank (c : Char) : Bool := c == ' ' || c == '\t' || c == '\n' || c == '\r'

/-- The fault in a name of which `expected` is still due. -/
def nameFault? : (expected found : Text) → Option Fault
  | [], _ => none
  | _ :: _, [] => some .endInValue
  | e :: es, c :: cs => if e = c then nameFault? es cs else some .expectedIdent

/-- The rest of a name, of which `expected` is due. -/
def nameToken (value : Token) (expected cs : Text) : Token × Option Text :=
  match nameFault? expected cs with
  | none => (value, some (cs.drop expected.length))
  | some fault => (.broken fault, none)

/-- A number at the start of a text. -/
def numberToken (t : Text) : Token × Option Text :=
  match Numeral.scan t with
  | .ok (numeral, rest) => (.number (.ok numeral), some rest)
  | .error defect => (.number (.error defect), none)

/-- The rest of a string, from behind its opening mark. -/
def stringToken (cs : Text) : Token × Option Text :=
  match (StringBody.scan cs).ending with
  | .closed rest => (.string (StringBody.scan cs), some rest)
  | _ => (.string (StringBody.scan cs), none)

/-- The token that starts with a character, given the text after that character, and the text
after the token if the row goes on. -/
def token : Char → Text → Token × Option Text
  | '[', cs => (.opening .list, some cs)
  | ']', cs => (.closing .list, some cs)
  | '\x7b', cs => (.opening .object, some cs)
  | '\x7d', cs => (.closing .object, some cs)
  | ',', cs => (.comma, some cs)
  | ':', cs => (.colon, some cs)
  | 'n', cs => nameToken .null "ull".toList cs
  | 't', cs => nameToken (.boolean true) "rue".toList cs
  | 'f', cs => nameToken (.boolean false) "alse".toList cs
  | '"', cs => stringToken cs
  | c, cs =>
    if c = '-' ∨ c.isDigit = true then numberToken (c :: cs) else (.broken .expectedValue, none)

theorem nameToken_rest_le {value : Token} {expected cs rest : Text}
    (h : (nameToken value expected cs).2 = some rest) : rest.length ≤ cs.length := by
  unfold nameToken at h
  split at h
  next =>
    obtain rfl := Option.some.inj h
    simp
  next => cases h

theorem numberToken_rest_lt {t rest : Text} (h : (numberToken t).2 = some rest) :
    rest.length < t.length := by
  unfold numberToken at h
  split at h
  next numeral r hs =>
    obtain rfl := Option.some.inj h
    exact Numeral.scan_lt hs
  next => cases h

theorem stringToken_rest_le {cs rest : Text} (h : (stringToken cs).2 = some rest) :
    rest.length ≤ cs.length := by
  unfold stringToken at h
  split at h
  next r hs =>
    obtain rfl := Option.some.inj h
    exact Nat.le_of_lt (StringBody.rest_lt hs)
  next => cases h

/-- A token takes at least the character it starts with. -/
theorem token_rest_le {c : Char} {cs rest : Text} (h : (token c cs).2 = some rest) :
    rest.length ≤ cs.length := by
  unfold token at h
  split at h
  case h_7 => exact nameToken_rest_le h
  case h_8 => exact nameToken_rest_le h
  case h_9 => exact nameToken_rest_le h
  case h_10 => exact stringToken_rest_le h
  case h_11 =>
    split at h
    next => exact Nat.le_of_lt_succ (numberToken_rest_lt h)
    next => cases h
  all_goals
    obtain rfl := Option.some.inj h
    exact Nat.le_refl _

/-- The tokens of a JSON text. -/
def tokens : Text → List Token
  | [] => []
  | c :: cs =>
    if isBlank c then tokens cs
    else
      match _h : token c cs with
      | (t, some rest) => t :: tokens rest
      | (t, none) => [t]
termination_by t => t.length
decreasing_by
  · exact Nat.lt_succ_self _
  · exact Nat.lt_succ_of_le (token_rest_le (congrArg Prod.snd _h))

end TwinRom.Json
