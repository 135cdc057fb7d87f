import TwinRom.Machine.AluFunction
import TwinRom.Machine.Opcode
import TwinRom.Text.Basic

/-!
# Mnemonics

The instructions that a source line can name. Each has a fixed number of operands
(`Mnemonic.arity`), the opcode rows it can be encoded with (`Mnemonic.variants`), and the data
bytes that are the same in every use (`Mnemonic.template`).

`Mnemonic.ofText?` finds the mnemonic that a text names, whatever its letter case and the blanks
around it. An opcode is defined (`Opcode.isDefined`) if some mnemonic can emit it.
-/

namespace TwinRom

/-- An instruction of the source language. -/
inductive Mnemonic where
  /-- Nothing. -/
  | nop
  /-- Clear the output. -/
  | zor
  /-- Store a byte in a RAM cell. -/
  | str
  /-- Set the ALU's first input. -/
  | stra
  /-- Load a byte into a register of the high bank. -/
  | lrg
  /-- Set up the ALU. -/
  | alu (function : AluFunction)
  /-- Store the output in a register. -/
  | sor
  /-- Put the RAM's byte on the output. -/
  | smo
  /-- Put the ALU's result on the output. -/
  | sao
  /-- Jump to a position, or to the one in `r0`. -/
  | jmp
  /-- Jump to the position in `r0`. -/
  | jmpr
  deriving DecidableEq, Repr

namespace Mnemonic

/-- The mnemonics in the order of their names. -/
def all : List Mnemonic :=
  [alu .add, alu .and, jmp, jmpr, lrg, alu .mul, nop, alu .not, alu .or, alu .pass, sao, smo, sor,
   str, stra, alu .sub, alu .xor, zor]

theorem mem_all : ∀ m : Mnemonic, m ∈ all
  | nop | zor | str | stra | lrg | sor | smo | sao | jmp | jmpr => by decide
  | alu f => by cases f <;> decide

/-- The name of a mnemonic. -/
def name : Mnemonic → String
  | nop => "nop"
  | zor => "zor"
  | str => "str"
  | stra => "stra"
  | lrg => "lrg"
  | alu f => f.name
  | sor => "sor"
  | smo => "smo"
  | sao => "sao"
  | jmp => "jmp"
  | jmpr => "jmpr"

/-- The number of operands. -/
def arity : Mnemonic → Nat
  | nop => 0
  | zor => 0
  | str => 2
  | stra => 1
  | lrg => 2
  | alu f => f.arity
  | sor => 1
  | smo => 0
  | sao => 0
  | jmp => 1
  | jmpr => 0

/-- Whether the mnemonic sets up the ALU. -/
def isAlu : Mnemonic → Bool
  | alu _ => true
  | _ => false

/-- The opcode rows that the mnemonic can be encoded with. -/
def variants : Mnemonic → List (List UInt8)
  | nop => [[Opcode.nop]]
  | zor => [[Opcode.clearOutput], [Opcode.clearOutputAgain]]
  | str => [[Opcode.ramMode, Opcode.ramData, Opcode.ramAddress]]
  | stra => [[Opcode.loadR6]]
  | lrg => [[Opcode.loadR5], [Opcode.loadR6], [Opcode.loadR7]]
  | alu f =>
    if f.isUnary then [[Opcode.loadR5, Opcode.loadR6]]
    else [[Opcode.loadR5, Opcode.loadR6, Opcode.loadR7]]
  | sor =>
    [[Opcode.storeR1], [Opcode.storeR2], [Opcode.storeR3],
     [Opcode.storeR5], [Opcode.storeR6], [Opcode.storeR7]]
  | smo => [[Opcode.ramToOutput]]
  | sao => [[Opcode.aluToOutput]]
  | jmp => [[Opcode.jump], [Opcode.jumpR0]]
  | jmpr => [[Opcode.jumpR0]]

/-- The data bytes that open every encoding of the mnemonic. -/
def template : Mnemonic → List UInt8
  | str => [Opcode.ramWrite]
  | alu f => [f.selector]
  | _ => []

/-- The mnemonic that a text names. -/
def ofText? (t : Text) : Option Mnemonic :=
  all.find? fun m => m.name.toList == Text.lower (Text.trim t)

@[simp] theorem ofText?_name : ∀ m : Mnemonic, ofText? m.name.toList = some m
  | nop | zor | str | stra | lrg | sor | smo | sao | jmp | jmpr => by decide
  | alu f => by cases f <;> decide

end Mnemonic

/-- The opcodes that a program may hold: those of some mnemonic, and the two end markers. -/
def Opcode.isDefined (opcode : UInt8) : Bool :=
  opcode == Opcode.endOfData || opcode == Opcode.endOfInstructions ||
    Mnemonic.all.any fun m => m.variants.any fun row => row.contains opcode

end TwinRom
