/-!
# Opcodes

The bytes of the instruction stream. The machine latches into two banks of registers: `r1` to
`r3` (`Bank.low`) and `r5` to `r7` (`Bank.high`); `r0` and `r4` belong to neither. The ALU reads
its function from `r5` and its inputs from `r6` and `r7`.

`Opcode.describe?` names what a byte does, for the bytes that do something.
-/

namespace TwinRom

/-- A bank of three registers that opcodes address one by one. -/
inductive Bank where
  /-- The registers `r1`, `r2` and `r3`. -/
  | low
  /-- The registers `r5`, `r6` and `r7`. -/
  | high
  deriving DecidableEq, Repr

/-- The bank of a register and its place in the bank, counted from zero. -/
def Bank.ofRegister? (register : UInt8) : Option (Bank × Nat) :=
  if 1 ≤ register ∧ register ≤ 3 then some (.low, register.toNat - 1)
  else if 5 ≤ register ∧ register ≤ 7 then some (.high, register.toNat - 5)
  else none

/-- A place in a bank is one of three. -/
theorem Bank.place_lt_three {register : UInt8} {bank : Bank} {place : Nat}
    (h : Bank.ofRegister? register = some (bank, place)) : place < 3 := by
  unfold Bank.ofRegister? at h
  split at h
  next hr =>
    obtain ⟨-, rfl⟩ := Prod.mk.inj (Option.some.inj h)
    have := UInt8.le_iff_toNat_le.mp hr.2
    simp at this
    omega
  next =>
    split at h
    next hr =>
      obtain ⟨-, rfl⟩ := Prod.mk.inj (Option.some.inj h)
      have := UInt8.le_iff_toNat_le.mp hr.2
      simp at this
      omega
    next => simp at h

namespace Opcode

/-! ## The bytes -/

/-- Does nothing. -/
def nop : UInt8 := 0x00
/-- Sets the mode of the RAM. -/
def ramMode : UInt8 := 0x05
/-- Sets the byte that the RAM is to store. -/
def ramData : UInt8 := 0x06
/-- Sets the cell that the RAM is to use. -/
def ramAddress : UInt8 := 0x07
/-- Clears the output. -/
def clearOutput : UInt8 := 0x08
/-- A second spelling of `clearOutput`. -/
def clearOutputAgain : UInt8 := 0x18
/-- Stores the output in `r1`. -/
def storeR1 : UInt8 := 0x15
/-- Stores the output in `r2`. -/
def storeR2 : UInt8 := 0x16
/-- Stores the output in `r3`. -/
def storeR3 : UInt8 := 0x17
/-- Loads the data byte into `r5`, the ALU's function. -/
def loadR5 : UInt8 := 0x25
/-- Loads the data byte into `r6`, the ALU's first input. -/
def loadR6 : UInt8 := 0x26
/-- Loads the data byte into `r7`, the ALU's second input. -/
def loadR7 : UInt8 := 0x27
/-- Stores the output in `r5`. -/
def storeR5 : UInt8 := 0x35
/-- Stores the output in `r6`. -/
def storeR6 : UInt8 := 0x36
/-- Stores the output in `r7`. -/
def storeR7 : UInt8 := 0x37
/-- Puts the RAM's byte on the output. -/
def ramToOutput : UInt8 := 0x48
/-- Puts the ALU's result on the output. -/
def aluToOutput : UInt8 := 0x88
/-- Jumps to the position in the data byte. -/
def jump : UInt8 := 0xC0
/-- Jumps to the position in `r0`. -/
def jumpR0 : UInt8 := 0xD0
/-- Ends a data stream. -/
def endOfData : UInt8 := 0xFE
/-- Ends an instruction stream. -/
def endOfInstructions : UInt8 := 0xFF

/-! ## Data bytes with a meaning of their own -/

/-- The RAM mode in which a cell is read. -/
def ramLatch : UInt8 := 0x00
/-- The RAM mode in which a cell is written. -/
def ramWrite : UInt8 := 0x04

/-! ## Descriptions -/

/-- What the known opcodes do. -/
def descriptions : List (UInt8 × String) :=
  [(nop, "nop"), (ramMode, "ram mode"), (ramData, "ram data"), (ramAddress, "ram address"),
   (clearOutput, "zor"), (clearOutputAgain, "zor"),
   (storeR1, "sor r1"), (storeR2, "sor r2"), (storeR3, "sor r3"),
   (loadR5, "load r5"), (loadR6, "load r6"), (loadR7, "load r7"),
   (storeR5, "sor r5"), (storeR6, "sor r6"), (storeR7, "sor r7"),
   (ramToOutput, "smo"), (aluToOutput, "sao"), (jump, "jmp"), (jumpR0, "jmp r0"),
   (endOfData, "end marker"), (endOfInstructions, "end marker")]

/-- What an opcode does, unless it is reserved. -/
def describe? (opcode : UInt8) : Option String := descriptions.lookup opcode

end Opcode

end TwinRom
