import TwinRom.Json.Token

/-!
# Skipping values

A member that an image has no use for is skipped, and its value is held to the rules of the
language on the way. Skipping walks the tokens once, with the open brackets on a stack, so values
may be nested as deeply as one likes.

Numbers and strings are not evaluated: a number may be too large and a string may hold half a
surrogate pair.
-/

namespace TwinRom.Json

/-- What has to come next while a value is skipped. -/
inductive Skip where
  /-- A value. -/
  | value
  /-- The first element of an array, or its end. -/
  | element
  /-- A key. -/
  | key
  /-- The first key of an object, or its end. -/
  | member
  /-- The colon after a key. -/
  | colon
  /-- A comma, or the end of the innermost array or object. -/
  | more
  deriving DecidableEq

namespace Skip

/-- The fault of a text that ends inside a bracket. -/
def endIn : Bracket → Fault
  | .list => .endInList
  | .object => .endInObject

/-- The fault of a value that neither a comma nor the closing bracket follows. -/
def expectedEnd : Bracket → Fault
  | .list => .expectedListEnd
  | .object => .expectedObjectEnd

/-- The fault of a text that ends while a value is skipped. -/
def atEnd (stack : List Bracket) : Skip → Fault
  | value => .endInValue
  | element => .endInList
  | key | member | colon => .endInObject
  | more =>
    match stack with
    | b :: _ => endIn b
    | [] => .endInValue

/-- What comes after a complete value: nothing, if no bracket is open. -/
def afterValue : List Bracket → Option (Skip × List Bracket)
  | [] => none
  | stack => some (more, stack)

/-- What comes after the comma behind a value. -/
def afterComma : Bracket → Skip
  | .list => value
  | .object => key

/-- Goes over a token that starts a value. -/
def overValue (stack : List Bracket) : Token → Except Fault (Option (Skip × List Bracket))
  | .opening .list => .ok (some (element, .list :: stack))
  | .opening .object => .ok (some (member, .object :: stack))
  | .null => .ok (afterValue stack)
  | .boolean _ => .ok (afterValue stack)
  | .number (.ok _) => .ok (afterValue stack)
  | .number (.error _) => .error .invalidNumber
  | .string body =>
    match body.defect? with
    | none => .ok (afterValue stack)
    | some fault => .error fault
  | .broken fault => .error fault
  | .closing _ | .comma | .colon => .error .expectedValue

/-- Goes over a token that starts a member. -/
def overKey (stack : List Bracket) : Token → Except Fault (Option (Skip × List Bracket))
  | .string body =>
    match body.defect? with
    | none => .ok (some (colon, stack))
    | some fault => .error fault
  | _ => .error .keyNotString

/-- Goes over one token. The result is what comes next, and nothing if the value is complete. -/
def step (stack : List Bracket) (t : Token) :
    Skip → Except Fault (Option (Skip × List Bracket))
  | value => overValue stack t
  | element =>
    match t with
    | .closing .list => .ok (afterValue stack.tail)
    | t => overValue stack t
  | key => overKey stack t
  | member =>
    match t with
    | .closing .object => .ok (afterValue stack.tail)
    | t => overKey stack t
  | colon =>
    match t with
    | .colon => .ok (some (value, stack))
    | _ => .error .expectedColon
  | more =>
    match stack with
    | [] => .ok none
    | b :: rest =>
      match t with
      | .comma => .ok (some (afterComma b, b :: rest))
      | .closing c => if c = b then .ok (afterValue rest) else .error (expectedEnd b)
      | _ => .error (expectedEnd b)

/-- Goes over tokens until the value is complete, and gives the tokens after it. -/
def run (next : Skip) (stack : List Bracket) : List Token → Except Fault (List Token)
  | [] => .error (next.atEnd stack)
  | t :: ts =>
    match step stack t next with
    | .error fault => .error fault
    | .ok none => .ok ts
    | .ok (some (next, stack)) => run next stack ts

/-- Skipping takes at least one token. -/
theorem run_lt {next : Skip} {stack : List Bracket} {ts rest : List Token}
    (h : run next stack ts = .ok rest) : rest.length < ts.length := by
  induction ts generalizing next stack with
  | nil => cases h
  | cons t ts ih =>
    unfold run at h
    split at h
    next => cases h
    next =>
      obtain rfl := Except.ok.inj h
      exact Nat.lt_succ_self _
    next => exact Nat.lt_succ_of_lt (ih h)

end Skip

/-- The tokens after the value at the start of some tokens. -/
def skipValue (ts : List Token) : Except Fault (List Token) := Skip.run .value [] ts

theorem skipValue_lt {ts rest : List Token} (h : skipValue ts = .ok rest) :
    rest.length < ts.length :=
  Skip.run_lt h

end TwinRom.Json
