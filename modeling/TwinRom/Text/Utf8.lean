import TwinRom.Text.Basic

/-!
# UTF-8

`Utf8.encode` writes a text as bytes and `Utf8.decode` reads one back, one byte at a time.

Between characters a byte either stands for itself or opens a sequence. An open sequence
(`Utf8.Sequence`) knows how many bytes it still needs and in which range the next one lies;
the range of the second byte is what rules out overlong forms and surrogates. A byte outside
the range is a `Utf8.Fault` that names where the sequence starts and how many of its bytes
were in order.
-/

namespace TwinRom.Utf8

/-- The bytes of a text. -/
def encode (t : Text) : List UInt8 := t.flatMap String.utf8EncodeChar

@[simp] theorem encode_nil : encode [] = [] := rfl

@[simp] theorem encode_cons (c : Char) (t : Text) :
    encode (c :: t) = String.utf8EncodeChar c ++ encode t := rfl

@[simp] theorem encode_append (s t : Text) : encode (s ++ t) = encode s ++ encode t := by
  simp [encode]

/-- Why some bytes are not a text. -/
inductive Fault where
  /-- The sequence at `index` breaks off after `length` bytes that were in order; a byte that
  cannot open a sequence counts as one. -/
  | invalid (index length : Nat)
  /-- The bytes end inside the sequence at `index`. -/
  | incomplete (index : Nat)
  deriving DecidableEq, Repr

/-- The wording of a fault. -/
def Fault.message : Fault → String
  | .invalid index length => s!"invalid utf-8 sequence of {length} bytes from index {index}"
  | .incomplete index => s!"incomplete utf-8 byte sequence from index {index}"

/-- A sequence that is not yet complete. -/
structure Sequence where
  /-- The index of its first byte. -/
  start : Nat
  /-- How many of its bytes have been read. -/
  read : Nat
  /-- How many bytes follow the next one. -/
  more : Nat
  /-- The least value of the next byte. -/
  low : UInt8
  /-- The greatest value of the next byte. -/
  high : UInt8
  /-- The bits read so far. -/
  bits : Nat

/-- The sequence that the byte `b` at `index` opens, if it opens one. -/
def opens? (index : Nat) (b : UInt8) : Option Sequence :=
  if 0xC2 ≤ b ∧ b ≤ 0xDF then some ⟨index, 1, 0, 0x80, 0xBF, b.toNat - 0xC0⟩
  else if b = 0xE0 then some ⟨index, 1, 1, 0xA0, 0xBF, 0⟩
  else if b = 0xED then some ⟨index, 1, 1, 0x80, 0x9F, 0xD⟩
  else if 0xE1 ≤ b ∧ b ≤ 0xEF then some ⟨index, 1, 1, 0x80, 0xBF, b.toNat - 0xE0⟩
  else if b = 0xF0 then some ⟨index, 1, 2, 0x90, 0xBF, 0⟩
  else if 0xF1 ≤ b ∧ b ≤ 0xF3 then some ⟨index, 1, 2, 0x80, 0xBF, b.toNat - 0xF0⟩
  else if b = 0xF4 then some ⟨index, 1, 2, 0x80, 0x8F, 4⟩
  else none

/-- The bits of a sequence with those of its next byte. -/
def Sequence.push (s : Sequence) (b : UInt8) : Nat := s.bits * 64 + (b.toNat - 0x80)

/-- Reads bytes from `index` on, inside the sequence `open?` if there is one. -/
def decodeFrom (index : Nat) (open? : Option Sequence) : List UInt8 → Except Fault Text
  | [] =>
    match open? with
    | none => .ok []
    | some s => .error (.incomplete s.start)
  | b :: bs =>
    match open? with
    | none =>
      if b < 0x80 then (decodeFrom (index + 1) none bs).map (Char.ofNat b.toNat :: ·)
      else
        match opens? index b with
        | none => .error (.invalid index 1)
        | some s => decodeFrom (index + 1) (some s) bs
    | some s =>
      if s.low ≤ b ∧ b ≤ s.high then
        match s.more with
        | 0 => (decodeFrom (index + 1) none bs).map (Char.ofNat (s.push b) :: ·)
        | n + 1 =>
          decodeFrom (index + 1) (some ⟨s.start, s.read + 1, n, 0x80, 0xBF, s.push b⟩) bs
      else .error (.invalid s.start s.read)

/-- The text that some bytes encode, or the first fault. -/
def decode (bytes : List UInt8) : Except Fault Text := decodeFrom 0 none bytes

@[simp] theorem decode_nil : decode [] = .ok [] := rfl

end TwinRom.Utf8
