import Mathlib.Logic.Function.Basic
import TwinRom.Proofs.Runs
import TwinRom.Proofs.Semantics

/-!
# Meaning is preserved

A piece of code performs a change of the visible part of a machine if it does so from every state
(`Performs`). The code of a statement performs what the statement means (`Encodes.performs`), so
running the image of a source does the same as executing its statements one after the other
(`run_assemble`).

The two inputs of the ALU are set up in turns: the preambles of both slots come first, then the
function, then the loads of both. This is the same as one input after the other, because each slot
changes its own register and otherwise only what reading its operand leaves behind.
-/

namespace TwinRom

/-! ## Registers -/

namespace Visible

variable (v : Visible) {r r' : Fin 8} (x y : UInt8)

theorem set_comm (h : r ≠ r') : (v.set r x).set r' y = (v.set r' y).set r x := by
  simp only [set, Function.update_comm h]

@[simp] theorem set_registers_self (r : Fin 8) : v.set r (v.registers r) = v := by
  simp only [set, Function.update_eq_self]

@[simp] theorem reading_set (r : Fin 8) (o : Operand) :
    (v.set r x).reading o = (v.reading o).set r x := by
  cases o <;> rfl

/-! ## Inputs of the ALU -/

theorem input_ne_five : ∀ i, input i ≠ 5
  | 0 => by decide
  | 1 => by decide

/-- A register fits an input only if it is the one that the input reads. -/
theorem register_eq_input {number : UInt8} {i : Fin 2}
    (h : fitsInput (.register number) i = true) : register number = input i := by
  have hget : AluFunction.inputs[i.val]? = some number := eq_of_beq h
  match i with
  | 0 =>
    obtain rfl : 6 = number := Option.some.inj hget
    rfl
  | 1 =>
    obtain rfl : 7 = number := Option.some.inj hget
    rfl

/-- What fetching the operand of a slot does. -/
def fetching (v : Visible) (s : Slot) : Visible :=
  match s.operand with
  | .address cell => (v.reading s.operand).set (input s.index) (v.ram cell)
  | _ => v

/-- What loading the operand of a slot does. -/
def loading (v : Visible) (s : Slot) : Visible :=
  match s.operand with
  | .immediate value => v.set (input s.index) value
  | _ => v

theorem loading_set (s : Slot) (h : r ≠ input s.index) :
    (v.set r x).loading s = (v.loading s).set r x := by
  obtain ⟨i, o⟩ := s
  cases o with
  | immediate value => exact set_comm v x value h
  | _ => rfl

/-- One input may be loaded before the other is fetched or after. -/
theorem loading_fetching_comm (s t : Slot) (h : input t.index ≠ input s.index) :
    (v.fetching t).loading s = (v.loading s).fetching t := by
  obtain ⟨j, o⟩ := t
  cases o with
  | address cell =>
    refine (loading_set _ _ s h).trans ?_
    obtain ⟨i, o'⟩ := s
    cases o' <;> rfl
  | _ => rfl

/-- Between them, fetching and loading bring an operand to its input. -/
theorem loading_fetching_self {i : Fin 2} {o : Operand} (h : fitsInput o i = true) :
    (v.fetching ⟨i, o⟩).loading ⟨i, o⟩ = (v.reading o).set (input i) (v.valueOf o) := by
  cases o with
  | register r =>
    -- the register is the input itself, so nothing has to be done
    have hr : register r = input i := register_eq_input h
    show v = v.set (input i) (v.registers (register r))
    rw [hr, set_registers_self]
  | address cell => rfl
  | immediate value => rfl

/-- The second operand is not affected by what happens to the first. -/
theorem valueOf_second (a : Operand) {b : Operand} (hb : fitsInput b 1 = true) :
    ((v.reading a).set 6 x).valueOf b = v.valueOf b := by
  cases b with
  | register r =>
    have hr : register r = 7 := register_eq_input (i := 1) hb
    show Function.update (v.reading a).registers 6 x (register r) = v.registers (register r)
    rw [hr, Function.update_of_ne (by decide)]
    cases a <;> rfl
  | address cell => cases a <;> rfl
  | immediate value => rfl

/-- What the code of a statement with one input does. -/
theorem set_unary {a : Operand} (ha : fitsInput a 0 = true) (selector : UInt8) :
    ((v.fetching ⟨0, a⟩).set 5 selector).loading ⟨0, a⟩ =
      ((v.reading a).set 5 selector).set 6 (v.valueOf a) := by
  rw [loading_set _ _ _ (input_ne_five 0).symm, loading_fetching_self v ha]
  exact set_comm _ _ _ (input_ne_five 0)

/-- What the code of a statement with two inputs does: the preambles of both slots come before
the loads of both, but they work on different registers. -/
theorem set_binary {a b : Operand} (ha : fitsInput a 0 = true) (hb : fitsInput b 1 = true)
    (selector : UInt8) :
    ((((v.fetching ⟨0, a⟩).fetching ⟨1, b⟩).set 5 selector).loading ⟨0, a⟩).loading ⟨1, b⟩ =
      ((((v.reading a).reading b).set 5 selector).set 6 (v.valueOf a)).set 7 (v.valueOf b) := by
  have hne : input 1 ≠ input 0 := by decide
  calc ((((v.fetching ⟨0, a⟩).fetching ⟨1, b⟩).set 5 selector).loading ⟨0, a⟩).loading ⟨1, b⟩
    _ = ((((v.fetching ⟨0, a⟩).loading ⟨0, a⟩).fetching ⟨1, b⟩).loading ⟨1, b⟩).set 5 selector := by
      rw [loading_set _ _ _ (input_ne_five 0).symm, loading_set _ _ _ (input_ne_five 1).symm,
        loading_fetching_comm _ _ _ hne]
    _ = ((((v.reading a).set 6 (v.valueOf a)).reading b).set 7 (v.valueOf b)).set 5 selector := by
      rw [loading_fetching_self v ha, loading_fetching_self _ hb]
      show (Visible.set _ 7 (((v.reading a).set 6 (v.valueOf a)).valueOf b)).set 5 selector = _
      rw [valueOf_second v _ a hb]
      rfl
    _ = ((((v.reading a).reading b).set 5 selector).set 6 (v.valueOf a)).set 7 (v.valueOf b) := by
      rw [reading_set, set_comm _ _ _ (show (7 : Fin 8) ≠ 5 by decide),
        set_comm _ _ _ (show (6 : Fin 8) ≠ 5 by decide)]

end Visible

/-! ## What code does -/

/-- Whatever the machine, the cells run through and change its visible part by `f`. -/
def Performs (alu : Alu) (cells : List Cell) (f : Visible → Visible) : Prop :=
  ∀ m : Machine, ∃ m', m.run alu cells = some m' ∧ m'.toVisible = f m.toVisible

variable {alu : Alu}

theorem Performs.nil : Performs alu [] id := fun m => ⟨m, rfl, rfl⟩

/-- Cells do one after the other what each part of them does. -/
theorem Performs.append {front back : List Cell} {f g : Visible → Visible}
    (hf : Performs alu front f) (hg : Performs alu back g) :
    Performs alu (front ++ back) (g ∘ f) := by
  intro m
  obtain ⟨m₁, hrun₁, hview₁⟩ := hf m
  obtain ⟨m₂, hrun₂, hview₂⟩ := hg m₁
  refine ⟨m₂, ?_, ?_⟩
  · rw [Machine.run_append, hrun₁, Option.bind_some, hrun₂]
  · rw [hview₂, hview₁, Function.comp_apply]

theorem Performs.cons {c : Cell} {back : List Cell} {f g : Visible → Visible}
    (hf : Performs alu [c] f) (hg : Performs alu back g) : Performs alu (c :: back) (g ∘ f) :=
  hf.append hg

theorem performs_load {r op : UInt8} (h : (r, op) ∈ loadOpcodes) (value : UInt8) :
    Performs alu [⟨op, value⟩] fun v => v.set (Visible.register r) value := by
  simp only [loadOpcodes, List.mem_cons, Prod.mk.injEq, List.not_mem_nil, or_false] at h
  rcases h with ⟨rfl, rfl⟩ | ⟨rfl, rfl⟩ | ⟨rfl, rfl⟩ <;> exact fun m => ⟨_, rfl, rfl⟩

/-- A store copies the output to its register. -/
theorem performs_store {r op : UInt8} (h : (r, op) ∈ storeOpcodes) :
    Performs alu [⟨op, 0⟩] fun v => v.set (Visible.register r) v.output := by
  simp only [storeOpcodes, List.mem_cons, Prod.mk.injEq, List.not_mem_nil, or_false] at h
  rcases h with ⟨rfl, rfl⟩ | ⟨rfl, rfl⟩ | ⟨rfl, rfl⟩ | ⟨rfl, rfl⟩ | ⟨rfl, rfl⟩ | ⟨rfl, rfl⟩ <;>
    exact fun m => ⟨_, rfl, rfl⟩

/-- A fetch latches its cell first, so that it never writes to the RAM, whatever the mode was. -/
theorem performs_fetched (s : Slot) : Performs alu s.fetched fun v => v.fetching s := by
  obtain ⟨i, o⟩ := s
  cases o with
  | address cell =>
    match i with
    | 0 => exact fun m => ⟨_, rfl, rfl⟩
    | 1 => exact fun m => ⟨_, rfl, rfl⟩
  | _ => exact Performs.nil

/-- The cells behind the function load the input of their slot. -/
theorem performs_loaded (s : Slot) : Performs alu s.loaded fun v => v.loading s := by
  obtain ⟨i, o⟩ := s
  cases o with
  | immediate value =>
    match i with
    | 0 => exact fun m => ⟨_, rfl, rfl⟩
    | 1 => exact fun m => ⟨_, rfl, rfl⟩
  | _ => exact Performs.nil

/-- The code of a statement does what the statement means. -/
theorem Encodes.performs {m : Mnemonic} {operands : List Operand} {cells : List Cell}
    (h : Encodes m operands cells) (hjmp : m ≠ .jmp) (hjmpr : m ≠ .jmpr) :
    ∃ f, Performs alu cells f ∧ ∀ v, Statement.meaning alu v ⟨m, operands⟩ = some (f v) := by
  cases h with
  | nop => exact ⟨_, fun m => ⟨_, rfl, rfl⟩, fun v => rfl⟩
  | zor => exact ⟨_, fun m => ⟨_, rfl, rfl⟩, fun v => rfl⟩
  | str value cell => exact ⟨_, fun m => ⟨_, rfl, rfl⟩, fun v => rfl⟩
  | stra value => exact ⟨_, performs_load (r := 6) (by decide) value, fun v => rfl⟩
  | lrg hr value => exact ⟨_, performs_load hr value, fun v => rfl⟩
  | @unary f a hf ha =>
    refine ⟨_, (performs_fetched ⟨0, a⟩).append
      ((performs_load (r := 5) (by decide) f.selector).cons (performs_loaded ⟨0, a⟩)), fun v => ?_⟩
    exact congrArg some (Visible.set_unary v ha f.selector).symm
  | @binary f a b hf ha hb =>
    refine ⟨_, ((performs_fetched ⟨0, a⟩).append (performs_fetched ⟨1, b⟩)).append
      ((performs_load (r := 5) (by decide) f.selector).cons
        ((performs_loaded ⟨0, a⟩).append (performs_loaded ⟨1, b⟩))), fun v => ?_⟩
    exact congrArg some (Visible.set_binary v ha hb f.selector).symm
  | sor hr => exact ⟨_, performs_store hr, fun v => rfl⟩
  | smo => exact ⟨_, fun m => ⟨_, rfl, rfl⟩, fun v => rfl⟩
  | sao => exact ⟨_, fun m => ⟨_, rfl, rfl⟩, fun v => rfl⟩
  | jmp target => exact absurd rfl hjmp
  | jmpR0 => exact absurd rfl hjmp
  | jmpr => exact absurd rfl hjmpr

/-! ## Sources -/

/-- The codes of some lines do what the statements on the lines mean. -/
theorem run_codes : ∀ {texts : List Text} {codes : List Fragment},
    texts.map Line.code = codes.map .ok →
    (∀ s ∈ texts.filterMap Line.statement?, s.mnemonic ≠ .jmp ∧ s.mnemonic ≠ .jmpr) →
    ∀ m : Machine, ∃ m', m.run alu (Fragment.concat codes).cells = some m' ∧
      execute alu m.toVisible (texts.filterMap Line.statement?) = some m'.toVisible
  | [], codes, hcodes, _, m => by
    obtain rfl := List.map_eq_nil_iff.mp hcodes.symm
    exact ⟨m, rfl, rfl⟩
  | text :: texts, codes, hcodes, hjumps, m => by
    obtain ⟨code, codes, rfl, hcode, hrest⟩ := List.map_eq_cons_iff.mp hcodes.symm
    rw [Fragment.concat_cons, Fragment.cells_append]
    -- a line without a statement has no code; otherwise the rest runs from where its code ends
    rcases Line.code_eq_ok_iff.mp hcode.symm with ⟨htokens, rfl⟩ | ⟨s, hs, hcode⟩
    · have hnone : Line.statement? text = none := Line.statement?_eq_none_of_tokens htokens
      rw [List.filterMap_cons_none hnone] at hjumps ⊢
      exact run_codes hrest.symm hjumps m
    · rw [List.filterMap_cons_some hs, List.forall_mem_cons] at hjumps
      obtain ⟨f, hf, hmeaning⟩ := (Statement.code_eq_ok_iff.mp hcode).performs hjumps.1.1 hjumps.1.2
      obtain ⟨m₁, hrun₁, hview₁⟩ := hf m
      obtain ⟨m₂, hrun₂, hexec₂⟩ := run_codes hrest.symm hjumps.2 m₁
      refine ⟨m₂, ?_, ?_⟩
      · rw [Machine.run_append, hrun₁, Option.bind_some, hrun₂]
      · rw [List.filterMap_cons_some hs, execute, List.foldlM_cons, hmeaning, ← hview₁]
        exact hexec₂

/-- Meaning is preserved: whatever the state of the machine, and whatever the ALU computes, the
image of a source without jumps runs through, and it leaves the registers, the output, the RAM and
its address as the statements of the source do, executed one after the other. -/
theorem run_assemble (alu : Alu) {source : Text} {x : Image} (hx : assemble source = .ok x)
    (hjumps : ∀ s ∈ statements source, s.mnemonic ≠ .jmp ∧ s.mnemonic ≠ .jmpr) (m : Machine) :
    ∃ m', m.run alu x.cells = some m' ∧
      execute alu m.toVisible (statements source) = some m'.toVisible := by
  obtain ⟨codes, hcodes, -, hins, hdata⟩ := assemble_eq_ok_iff.mp hx
  have hcells : x.cells = (Fragment.concat codes).cells := by
    rw [Image.cells, hins, hdata, Fragment.cells]
  rw [hcells]
  exact run_codes hcodes hjumps m

/-- A source that adds a RAM cell to `r7` and keeps the sum in `r1`. -/
theorem run_assemble_sum :
    let source := "str 42 7\nadd a7, r7 ; both inputs\n\nsao\nsor r1".toList
    let x := Image.ofStreams [5, 6, 7, 5, 7, 0x48, 0x36, 0x25, 0x88, 0x15]
      [4, 42, 7, 0, 7, 0, 0, 2, 0, 0]
    assemble source = .ok x ∧
      (∀ s ∈ statements source, s.mnemonic ≠ .jmp ∧ s.mnemonic ≠ .jmpr) ∧
      ∀ alu (m : Machine), ∃ m', m.run alu x.cells = some m' ∧
        execute alu m.toVisible (statements source) = some m'.toVisible := by
  intro source x
  have hx : assemble source = .ok x := by
    refine assemble_eq_ok_iff.mpr ⟨[.ofCells [⟨5, 4⟩, ⟨6, 42⟩, ⟨7, 7⟩],
      .ofCells [⟨5, 0⟩, ⟨7, 7⟩, ⟨0x48, 0⟩, ⟨0x36, 0⟩, ⟨0x25, 2⟩], .empty,
      .ofCells [⟨0x88, 0⟩], .ofCells [⟨0x15, 0⟩]], rfl, by decide, ?_, ?_⟩
    · exact Image.usedInstructions_ofStreams rfl (by decide)
    · exact Image.usedData_ofStreams rfl (by decide)
  have hjumps : ∀ s ∈ statements source, s.mnemonic ≠ .jmp ∧ s.mnemonic ≠ .jmpr := by decide
  exact ⟨hx, hjumps, fun alu => run_assemble alu hx hjumps⟩

end TwinRom
