import TwinRom.Machine.Mnemonic
import TwinRom.Rom.Fragment
import TwinRom.Source.Fault

/-!
# Encoding of instructions

A slot is an operand in its place. A RAM cell cannot reach the ALU directly, so a slot that names
one fetches it first (`fetch`): the cell is latched, put on the output, and stored in the input
register of the slot.

`variant?` picks the opcode row of a mnemonic from the kinds of its operands, always among the
rows there are (`variant?_lt`). `encode` then pairs the row with data bytes. For the ALU the
row is one load for the function and one for each input, and an input that is already in its
register, because it was fetched or because the operand is that register, is not loaded again.
-/

namespace TwinRom

/-! ## Slots -/

/-- The opcode that stores the output in the register of an ALU input. -/
def storeInput : Fin 2 → UInt8
  | 0 => Opcode.storeR6
  | 1 => Opcode.storeR7

/-- Brings a RAM cell into the register of an ALU input. -/
def fetch (cell : UInt8) (input : Fin 2) : List Cell :=
  [⟨Opcode.ramMode, Opcode.ramLatch⟩, ⟨Opcode.ramAddress, cell⟩, ⟨Opcode.ramToOutput, 0⟩,
   ⟨storeInput input, 0⟩]

/-- The code that fetches a RAM cell for the operand of `m` at `index`. -/
def fetchFor (m : Mnemonic) (cell : UInt8) (index : Nat) : Except Fault Fragment :=
  if m.isAlu then
    if h : index < 2 then .ok (.ofCells (fetch cell ⟨index, h⟩))
    else .error (.invalidSlot index)
  else .error (.addressNotSupported m.name.toList)

/-- An operand in its place. -/
structure Slot where
  /-- The place, counted from zero. -/
  index : Fin 2
  /-- The operand. -/
  operand : Operand
  deriving DecidableEq

namespace Slot

/-- Puts an operand of `m` in its place. -/
def make (m : Mnemonic) (index : Nat) (operand : Operand) : Except Fault Slot :=
  if h : index < m.arity ∧ index < 2 then
    match operand with
    | .address cell => (fetchFor m cell index).map fun _ => ⟨⟨index, h.2⟩, operand⟩
    | _ => .ok ⟨⟨index, h.2⟩, operand⟩
  else .error (.invalidSlot index)

/-- The cells that go before the instruction on behalf of the slot. -/
def fetched (s : Slot) : List Cell :=
  match s.operand with
  | .address cell => fetch cell s.index
  | _ => []

/-- The code that goes before the instruction, for a slot that needs some. -/
def preamble? (s : Slot) : Option Fragment :=
  match s.operand with
  | .address cell => some (.ofCells (fetch cell s.index))
  | _ => none

end Slot

/-! ## The opcode row -/

/-- Whether the ALU can take an operand at the input `index`. A register has to be the one the
ALU reads there. -/
def fitsInput (operand : Operand) (index : Nat) : Bool :=
  match operand with
  | .register r => AluFunction.inputs[index]? == some r
  | _ => true

/-- The number of the opcode row that encodes `m` with the given operands. -/
def variant? : Mnemonic → List Operand → Option Nat
  | .nop, [] => some 0
  | .zor, [] => some 0
  | .smo, [] => some 0
  | .sao, [] => some 0
  | .jmpr, [] => some 0
  | .stra, [.immediate _] => some 0
  | .str, [.immediate _, .immediate _] => some 0
  | .jmp, [.immediate _] => some 0
  | .jmp, [.register r] => if r = 0 then some 1 else none
  | .sor, [.register r] =>
    match Bank.ofRegister? r with
    | some (.low, place) => some place
    | some (.high, place) => some (3 + place)
    | none => none
  | .lrg, [.register r, .immediate _] =>
    match Bank.ofRegister? r with
    | some (.high, place) => some place
    | _ => none
  | .alu _, operands => if operands.zipIdx.all fun p => fitsInput p.1 p.2 then some 0 else none
  | _, _ => none

/-- The row that `variant?` picks is there. -/
theorem variant?_lt {m : Mnemonic} {operands : List Operand} {v : Nat}
    (h : variant? m operands = some v) : v < m.variants.length := by
  unfold variant? at h
  split at h
  case h_9 =>
    split at h
    next =>
      obtain rfl := Option.some.inj h
      decide
    next => cases h
  case h_10 =>
    split at h
    next place hp =>
      obtain rfl := Option.some.inj h
      have := Bank.place_lt_three hp
      simp only [Mnemonic.variants, List.length_cons, List.length_nil]
      omega
    next place hp =>
      obtain rfl := Option.some.inj h
      have := Bank.place_lt_three hp
      simp only [Mnemonic.variants, List.length_cons, List.length_nil]
      omega
    next => cases h
  case h_11 =>
    split at h
    next place hp =>
      obtain rfl := Option.some.inj h
      exact Bank.place_lt_three hp
    next => cases h
  case h_12 f =>
    split at h
    next =>
      obtain rfl := Option.some.inj h
      cases f <;> decide
    next => cases h
  case h_13 => cases h
  all_goals
    obtain rfl := Option.some.inj h
    decide

/-! ## The code -/

/-- Pairs every opcode of a row with its data byte and leaves out the opcodes that have none. -/
def loads (row : List UInt8) (data : List (Option UInt8)) : List Cell :=
  (row.zip data).filterMap fun p => p.2.map (Cell.mk p.1)

/-- The cells of `m` with the opcode row `row`. -/
def emit (m : Mnemonic) (row : List UInt8) (slots : List Slot) : List Cell :=
  if m.isAlu then
    slots.flatMap Slot.fetched ++
      loads row (m.template.map some ++ slots.map fun s => s.operand.immediate?)
  else
    let data := m.template ++ slots.filterMap fun s => s.operand.immediate?
    (row.zip (data.rightpad row.length 0)).map fun p => ⟨p.1, p.2⟩

/-- Whether `m` takes `got` operands. -/
def checkArity (m : Mnemonic) (got : Nat) : Except Fault Unit :=
  if m.arity = got then .ok () else .error (.arityMismatch m.name.toList m.arity got)

/-- The first slot that is not in the place it is made for. -/
def misplaced? (slots : List Slot) : Option Slot :=
  (slots.zipIdx.find? fun p => p.1.index.val != p.2).map Prod.fst

/-- The code of `m` with the given operands, what they fetch included. -/
def encode (m : Mnemonic) (slots : List Slot) : Except Fault Fragment := do
  checkArity m slots.length
  match misplaced? slots with
  | some slot => .error (.invalidSlot slot.index)
  | none =>
    let operands := slots.map Slot.operand
    match h : variant? m operands with
    | some v =>
      have := variant?_lt h
      .ok (.ofCells (emit m m.variants[v] slots))
    | none => .error (.unsupportedShape m.name.toList (Operand.shape operands))

end TwinRom
