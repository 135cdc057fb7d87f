import Mathlib.Logic.Function.Basic
import TwinRom.Proofs.LineCode
import TwinRom.Rom.Image

/-!
# Machine and meaning

What the positions of a ROM do. A machine has eight registers, an output, and a RAM that is used
through three registers of its own: a mode, a byte to store and an address. An opcode has an
effect (`Opcode.effect?`), which may use the data byte beside it, and a machine runs cells one
after the other (`Machine.run`). Jumps and end markers have no effect here: a run that meets one
has no result. The ALU is any function of the three registers it reads.

What statements do to the part of a machine that programs compute with (`Statement.meaning`), said
without their code. A statement of the ALU reads its operands before it changes anything. An
operand in the RAM is seen on the way: its cell stays in the address and its byte on the output.
-/

namespace TwinRom

/-- What programs compute with. -/
@[ext] structure Visible where
  /-- The registers `r0` to `r7`. -/
  registers : Fin 8 → UInt8
  /-- The output. -/
  output : UInt8
  /-- The cell that the RAM uses. -/
  address : UInt8
  /-- The cells of the RAM. -/
  ram : UInt8 → UInt8

/-- The state of a machine. -/
structure Machine extends Visible where
  /-- The mode of the RAM. -/
  ramMode : UInt8
  /-- The byte that the RAM is to store. -/
  ramData : UInt8

/-! ## Steps of the machine -/

/-- What an opcode does. -/
inductive Effect where
  /-- Nothing. -/
  | idle
  /-- The data byte becomes the mode of the RAM. -/
  | setMode
  /-- The data byte becomes the byte to store. -/
  | setData
  /-- The data byte becomes the address, and in the writing mode the RAM stores its byte there. -/
  | setAddress
  /-- The output becomes zero. -/
  | clear
  /-- The data byte goes to a register. -/
  | load (r : Fin 8)
  /-- The output goes to a register. -/
  | store (r : Fin 8)
  /-- The cell at the address goes to the output. -/
  | showRam
  /-- The result of the ALU goes to the output. -/
  | showAlu

/-- The effects of the opcodes that have one. -/
def Opcode.effects : List (UInt8 × Effect) :=
  [(nop, .idle), (ramMode, .setMode), (ramData, .setData), (ramAddress, .setAddress),
   (clearOutput, .clear), (clearOutputAgain, .clear),
   (storeR1, .store 1), (storeR2, .store 2), (storeR3, .store 3),
   (loadR5, .load 5), (loadR6, .load 6), (loadR7, .load 7),
   (storeR5, .store 5), (storeR6, .store 6), (storeR7, .store 7),
   (ramToOutput, .showRam), (aluToOutput, .showAlu)]

/-- The effect of an opcode. -/
def Opcode.effect? (opcode : UInt8) : Option Effect := effects.lookup opcode

/-- What the ALU makes of its function and its two inputs. -/
abbrev Alu := UInt8 → UInt8 → UInt8 → UInt8

namespace Machine

/-- The machine after an effect with the data byte `data`. -/
def after (alu : Alu) (m : Machine) (data : UInt8) : Effect → Machine
  | .idle => m
  | .setMode => { m with ramMode := data }
  | .setData => { m with ramData := data }
  | .setAddress =>
    { m with
      address := data
      ram := if m.ramMode = Opcode.ramWrite then Function.update m.ram data m.ramData else m.ram }
  | .clear => { m with output := 0 }
  | .load r => { m with registers := Function.update m.registers r data }
  | .store r => { m with registers := Function.update m.registers r m.output }
  | .showRam => { m with output := m.ram m.address }
  | .showAlu => { m with output := alu (m.registers 5) (m.registers 6) (m.registers 7) }

/-- One position. -/
def step (alu : Alu) (m : Machine) (c : Cell) : Option Machine :=
  (Opcode.effect? c.opcode).map (m.after alu c.data)

/-! ## Runs of the machine -/

/-- Positions one after the other. -/
def run (alu : Alu) (m : Machine) (cells : List Cell) : Option Machine :=
  cells.foldlM (step alu) m

variable (alu : Alu) (m : Machine)

/-- Running cells one after the other, up to any point and then on from there. -/
theorem run_append (front back : List Cell) :
    m.run alu (front ++ back) = (m.run alu front).bind fun m' => m'.run alu back := by
  rw [run, List.foldlM_append]
  rfl

end Machine

/-- The used positions of an image. -/
def Image.cells (x : Image) : List Cell :=
  (x.usedInstructions.zip x.usedData).map fun p => ⟨p.1, p.2⟩

/-! ## Operands -/

namespace Visible

/-- The register with a number. -/
def register (number : UInt8) : Fin 8 := Fin.ofNat 8 number.toNat

/-- The byte that an operand stands for. -/
def valueOf (v : Visible) : Operand → UInt8
  | .register r => v.registers (register r)
  | .address cell => v.ram cell
  | .immediate value => value

/-- The register of an input of the ALU. -/
def input : Fin 2 → Fin 8
  | 0 => 6
  | 1 => 7

/-- What reading an operand leaves behind. -/
def reading (v : Visible) : Operand → Visible
  | .address cell => { v with address := cell, output := v.ram cell }
  | _ => v

/-- A register with a new byte. -/
def set (v : Visible) (r : Fin 8) (value : UInt8) : Visible :=
  { v with registers := Function.update v.registers r value }

end Visible

/-! ## Statements -/

/-- What a statement does. Jumps, and operands that a mnemonic cannot have, mean nothing here. -/
def Statement.meaning (alu : Alu) (v : Visible) (s : Statement) : Option Visible :=
  match s.mnemonic, s.operands with
  | .nop, [] => some v
  | .zor, [] => some { v with output := 0 }
  | .str, [.immediate value, .immediate cell] =>
    some { v with address := cell, ram := Function.update v.ram cell value }
  | .stra, [.immediate value] => some (v.set 6 value)
  | .lrg, [.register r, .immediate value] => some (v.set (Visible.register r) value)
  | .alu f, [a] => some (((v.reading a).set 5 f.selector).set 6 (v.valueOf a))
  | .alu f, [a, b] =>
    some (((((v.reading a).reading b).set 5 f.selector).set 6 (v.valueOf a)).set 7 (v.valueOf b))
  | .sor, [.register r] => some (v.set (Visible.register r) v.output)
  | .smo, [] => some { v with output := v.ram v.address }
  | .sao, [] => some { v with output := alu (v.registers 5) (v.registers 6) (v.registers 7) }
  | _, _ => none

/-- Statements one after the other. -/
def execute (alu : Alu) (v : Visible) (statements : List Statement) : Option Visible :=
  statements.foldlM (Statement.meaning alu) v

/-- The statements of a source. -/
def statements (source : Text) : List Statement := (Text.lines source).filterMap Line.statement?

end TwinRom
