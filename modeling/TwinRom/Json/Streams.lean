import TwinRom.Json.Skipping
import TwinRom.Rom.Image

/-!
# Streams in JSON

The two streams of an image as a JSON text: an object with the members `instructions` and `data`,
or an array of the two. A stream is an array of bytes. Other members are skipped.

Reading runs from left to right and stops at the first fault.
-/

namespace TwinRom.Json

/-! ## Values of the wrong type -/

/-- The fault of a number that cannot be scanned. -/
def numberFault : Numeral.Defect → Fault
  | .invalid => .invalidNumber
  | .cutOff => .endInValue

/-- The fault of a token where something else was wanted. A number or a string is read to its
end first, and its own faults go before the wrong type. -/
def Token.mismatch (wanted : Wanted) : Token → Fault
  | .opening .list => .wrongType .sequence wanted
  | .opening .object => .wrongType .map wanted
  | .null => .wrongType .null wanted
  | .boolean value => .wrongType (.boolean value) wanted
  | .number (.error defect) => numberFault defect
  | .number (.ok numeral) =>
    match numeral.value? with
    | some (.integer value) => .wrongType (.integer value) wanted
    | some (.real decimal) => .wrongType (.real decimal) wanted
    | none => .outOfRange
  | .string body =>
    match body.text with
    | .ok content => .wrongType (.string content) wanted
    | .error fault => fault
  | .broken fault => fault
  | .closing _ | .comma | .colon => .expectedValue

/-! ## Streams -/

/-- The byte that a token stands for. -/
def byte : Token → Except Fault UInt8
  | .number (.ok numeral) =>
    match numeral.value? with
    | some (.integer value) =>
      if 0 ≤ value ∧ value < 256 then .ok (UInt8.ofNat value.toNat) else .error (.wrongByte value)
    | some (.real decimal) => .error (.wrongType (.real decimal) .byte)
    | none => .error .outOfRange
  | t => .error (t.mismatch .byte)

/-- The bytes of an array behind its first element, and the tokens after the array. -/
def moreBytes : List Token → Except Fault (List UInt8 × List Token)
  | [] => .error .endInList
  | .closing .list :: ts => .ok ([], ts)
  | [.comma] => .error .endInValue
  | .comma :: .closing .list :: _ => .error .trailingComma
  | .comma :: t :: ts =>
    match byte t with
    | .ok b => (moreBytes ts).map fun r => (b :: r.1, r.2)
    | .error fault => .error fault
  | _ :: _ => .error .expectedListEnd

/-- The bytes of an array from behind its bracket, and the tokens after the array. -/
def bytes : List Token → Except Fault (List UInt8 × List Token)
  | [] => .error .endInList
  | .closing .list :: ts => .ok ([], ts)
  | t :: ts =>
    match byte t with
    | .ok b => (moreBytes ts).map fun r => (b :: r.1, r.2)
    | .error fault => .error fault

/-- The stream at the start of some tokens, and the tokens after it. -/
def stream : List Token → Except Fault (List UInt8 × List Token)
  | [] => .error .endInValue
  | .opening .list :: ts => bytes ts
  | t :: _ => .error (t.mismatch .stream)

theorem moreBytes_lt {ts : List Token} {r : List UInt8 × List Token}
    (h : moreBytes ts = .ok r) : r.2.length < ts.length := by
  fun_induction moreBytes ts generalizing r with
  | case1 => cases h
  | case2 ts =>
    obtain rfl := Except.ok.inj h
    exact Nat.lt_succ_self _
  | case3 => cases h
  | case4 => cases h
  | case5 t ts _ b hb ih =>
    cases hm : moreBytes ts with
    | error fault => simp [hm, Except.map] at h
    | ok m =>
      simp only [hm, Except.map, Except.ok.injEq] at h
      subst h
      have := ih hm
      simp only [List.length_cons]
      omega
  | case6 => cases h
  | case7 => cases h

theorem bytes_lt {ts : List Token} {r : List UInt8 × List Token} (h : bytes ts = .ok r) :
    r.2.length < ts.length := by
  unfold bytes at h
  split at h
  next => cases h
  next ts =>
    obtain rfl := Except.ok.inj h
    exact Nat.lt_succ_self _
  next t ts _ =>
    split at h
    next b _ =>
      cases hm : moreBytes ts with
      | error fault => simp [hm, Except.map] at h
      | ok m =>
        simp only [hm, Except.map, Except.ok.injEq] at h
        subst h
        have := moreBytes_lt hm
        simp only [List.length_cons]
        omega
    next => cases h

theorem stream_lt {ts : List Token} {r : List UInt8 × List Token} (h : stream ts = .ok r) :
    r.2.length < ts.length := by
  unfold stream at h
  split at h
  next => cases h
  next ts => exact Nat.lt_succ_of_lt (bytes_lt h)
  next => cases h

/-! ## The object -/

/-- The streams that an object has given so far. -/
structure Members where
  instructions : Option (List UInt8) := none
  data : Option (List UInt8) := none
  deriving DecidableEq

namespace Members

/-- The stream that belongs to a part of the image. -/
def get? (m : Members) : Field → Option (List UInt8)
  | .instructions => m.instructions
  | .data => m.data

/-- The members with one more stream. -/
def set (m : Members) (stream : List UInt8) : Field → Members
  | .instructions => { m with instructions := some stream }
  | .data => { m with data := some stream }

end Members

/-- The tokens behind the colon that has to follow a key. -/
def afterColon : List Token → Except Fault (List Token)
  | [] => .error .endInObject
  | .colon :: ts => .ok ts
  | _ :: _ => .error .expectedColon

theorem afterColon_lt {ts rest : List Token} (h : afterColon ts = .ok rest) :
    rest.length < ts.length := by
  unfold afterColon at h
  split at h
  next => cases h
  next ts =>
    obtain rfl := Except.ok.inj h
    exact Nat.lt_succ_self _
  next => cases h

/-- Reads the value of a part of the image, from behind its key. -/
def readField (m : Members) (field : Field) (ts : List Token) :
    Except Fault (Members × List Token) :=
  match m.get? field with
  | some _ => .error (.duplicateField field)
  | none => do
    let ts ← afterColon ts
    let (bytes, ts) ← stream ts
    .ok (m.set bytes field, ts)

/-- Skips the value of a member that is no part of an image, from behind its key. -/
def skipField (m : Members) (ts : List Token) : Except Fault (Members × List Token) := do
  let ts ← afterColon ts
  let ts ← skipValue ts
  .ok (m, ts)

/-- Reads one member, which starts with the token `key`. -/
def member (m : Members) (key : Token) (ts : List Token) : Except Fault (Members × List Token) :=
  match key with
  | .string body =>
    match body.text with
    | .ok name =>
      match Field.ofKey? name with
      | some field => readField m field ts
      | none => skipField m ts
    | .error fault => .error fault
  | _ => .error .keyNotString

theorem readField_lt {m : Members} {field : Field} {ts : List Token}
    {r : Members × List Token} (h : readField m field ts = .ok r) : r.2.length < ts.length := by
  unfold readField at h
  split at h
  next => cases h
  next =>
    simp only [bind, Except.bind] at h
    split at h
    next => cases h
    next rest hc =>
      split at h
      next => cases h
      next s hs =>
        obtain rfl := Except.ok.inj h
        exact Nat.lt_trans (stream_lt hs) (afterColon_lt hc)

theorem skipField_lt {m : Members} {ts : List Token} {r : Members × List Token}
    (h : skipField m ts = .ok r) : r.2.length < ts.length := by
  simp only [skipField, bind, Except.bind] at h
  split at h
  next => cases h
  next rest hc =>
    split at h
    next => cases h
    next s hs =>
      obtain rfl := Except.ok.inj h
      exact Nat.lt_trans (skipValue_lt hs) (afterColon_lt hc)

theorem member_lt {m : Members} {key : Token} {ts : List Token} {r : Members × List Token}
    (h : member m key ts = .ok r) : r.2.length < ts.length := by
  unfold member at h
  split at h
  next =>
    split at h
    next =>
      split at h
      next => exact readField_lt h
      next => exact skipField_lt h
    next => cases h
  next => cases h

/-- Reads the members of an object behind the first one, and gives the tokens after the object. -/
def moreMembers (m : Members) (ts : List Token) : Except Fault (Members × List Token) :=
  match ts with
  | [] => .error .endInObject
  | .closing .object :: ts => .ok (m, ts)
  | [.comma] => .error .endInValue
  | .comma :: .closing .object :: _ => .error .trailingComma
  | .comma :: key :: ts =>
    match _h : member m key ts with
    | .ok (m, rest) => moreMembers m rest
    | .error fault => .error fault
  | _ :: _ => .error .expectedObjectEnd
termination_by ts.length
decreasing_by
  have := member_lt _h
  simp only [List.length_cons] at *
  omega

/-- Reads the members of an object from behind its brace, and gives the tokens after the object. -/
def members (ts : List Token) : Except Fault (Members × List Token) :=
  match ts with
  | [] => .error .endInObject
  | .closing .object :: ts => .ok ({}, ts)
  | key :: ts =>
    match member {} key ts with
    | .ok (m, ts) => moreMembers m ts
    | .error fault => .error fault

/-! ## The image -/

/-- The streams that an object has to give. -/
def Members.streams (m : Members) : Except Fault Streams :=
  match m.instructions, m.data with
  | some instructions, some data => .ok ⟨instructions, data⟩
  | none, _ => .error (.missingField .instructions)
  | some _, none => .error (.missingField .data)

/-- The tokens in front of the second stream of an array. -/
def secondStream : List Token → Except Fault (List Token)
  | [] => .error .endInList
  | .closing .list :: _ => .error (.wrongLength 1)
  | [.comma] => .error .endInValue
  | .comma :: .closing .list :: _ => .error .trailingComma
  | .comma :: ts => .ok ts
  | _ :: _ => .error .expectedListEnd

/-- The tokens after an array that has given both streams. -/
def endOfPair : List Token → Except Fault (List Token)
  | [] => .error .endInList
  | .closing .list :: ts => .ok ts
  | .comma :: .closing .list :: _ => .error .trailingComma
  | _ :: _ => .error .trailingCharacters

/-- Reads the streams of an array from behind its bracket, and gives the tokens after the array. -/
def pair : List Token → Except Fault (Streams × List Token)
  | [] => .error .endInList
  | .closing .list :: _ => .error (.wrongLength 0)
  | ts => do
    let (instructions, ts) ← stream ts
    let (data, ts) ← stream (← secondStream ts)
    .ok (⟨instructions, data⟩, ← endOfPair ts)

/-- Reads the streams at the start of some tokens, and gives the tokens after them. -/
def streamsOf : List Token → Except Fault (Streams × List Token)
  | [] => .error .endInValue
  | .opening .list :: ts => pair ts
  | .opening .object :: ts => do
    let (m, ts) ← members ts
    .ok (← m.streams, ts)
  | t :: _ => .error (t.mismatch .image)

/-- The streams that a JSON text holds. -/
def streams (t : Text) : Except Fault Streams :=
  match streamsOf (tokens t) with
  | .ok (s, []) => .ok s
  | .ok (_, _ :: _) => .error .trailingCharacters
  | .error fault => .error fault

end TwinRom.Json
