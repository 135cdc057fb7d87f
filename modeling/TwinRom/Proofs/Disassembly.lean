import TwinRom.Proofs.Encoding

/-!
# Disassembly

Code read back into a statement. `disassemble` looks at the cells of one statement and finds the
mnemonic and the operands again. Code of the ALU is taken off from the front, piece by piece: what
is fetched for the two inputs, the function, what is loaded into the two inputs. An input that is
neither fetched nor loaded was in its register already.

Three kinds of statements share their code with a load of a register or with a jump
(`Statement.Alias`). Apart from these, reading back gives the very statement
(`disassemble_of_encodes`), so no two other statements have the same code (`code_eq_ok_iff_alias`).
-/

namespace TwinRom

/-! ## Reading code -/

/-- The cell of an operand in the RAM. -/
def Operand.address? : Operand → Option UInt8
  | address cell => some cell
  | _ => none

/-- The cell that is fetched for an ALU input by the first cells, and the cells behind that. -/
def unfetch (input : Fin 2) : List Cell → Option UInt8 × List Cell
  | mode :: address :: output :: store :: rest =>
    if [mode, address, output, store] = fetch address.data input then (some address.data, rest)
    else (none, mode :: address :: output :: store :: rest)
  | cells => (none, cells)

/-- The byte that is loaded into an ALU input by the first cell, and the cells behind that. -/
def unload (input : Fin 2) : List Cell → Option UInt8 × List Cell
  | load :: rest =>
    if load.opcode = loadInput input then (some load.data, rest) else (none, load :: rest)
  | [] => (none, [])

/-- The operand at an ALU input, from the cell that was fetched and the byte that was loaded. -/
def operandAt (input : Fin 2) : Option UInt8 → Option UInt8 → Operand
  | some cell, _ => .address cell
  | none, some value => .immediate value
  | none, none => .register (AluFunction.inputs.get input)

/-- The function and the two inputs that some cells set the ALU up with. -/
def readAlu (cells : List Cell) : Option (AluFunction × Operand × Operand) :=
  let first := unfetch ⟨0, Nat.zero_lt_two⟩ cells
  let second := unfetch ⟨1, Nat.one_lt_two⟩ first.2
  match second.2 with
  | select :: cells =>
    let value := unload ⟨0, Nat.zero_lt_two⟩ cells
    if select.opcode = Opcode.loadR5 then
      (AluFunction.ofSelector? select.data).map fun f =>
        (f, operandAt ⟨0, Nat.zero_lt_two⟩ first.1 value.1,
          operandAt ⟨1, Nat.one_lt_two⟩ second.1 (unload ⟨1, Nat.one_lt_two⟩ value.2).1)
    else none
  | [] => none

/-- The statements with one cell, by their opcodes, for a data byte. -/
def singles (data : UInt8) : List (UInt8 × Statement) :=
  [(Opcode.nop, ⟨.nop, []⟩), (Opcode.clearOutput, ⟨.zor, []⟩),
   (Opcode.loadR5, ⟨.lrg, [.register 5, .immediate data]⟩),
   (Opcode.loadR6, ⟨.stra, [.immediate data]⟩),
   (Opcode.loadR7, ⟨.lrg, [.register 7, .immediate data]⟩),
   (Opcode.storeR1, ⟨.sor, [.register 1]⟩), (Opcode.storeR2, ⟨.sor, [.register 2]⟩),
   (Opcode.storeR3, ⟨.sor, [.register 3]⟩), (Opcode.storeR5, ⟨.sor, [.register 5]⟩),
   (Opcode.storeR6, ⟨.sor, [.register 6]⟩), (Opcode.storeR7, ⟨.sor, [.register 7]⟩),
   (Opcode.ramToOutput, ⟨.smo, []⟩), (Opcode.aluToOutput, ⟨.sao, []⟩),
   (Opcode.jump, ⟨.jmp, [.immediate data]⟩), (Opcode.jumpR0, ⟨.jmpr, []⟩)]

/-- The statement that sets up the ALU with a function and its inputs. -/
def aluStatement (f : AluFunction) (a b : Operand) : Statement :=
  ⟨.alu f, if f.isUnary then [a] else [a, b]⟩

theorem aluStatement_unary {f : AluFunction} (hf : f.isUnary = true) {a b : Operand} :
    aluStatement f a b = ⟨.alu f, [a]⟩ := by
  rw [aluStatement, if_pos hf]

theorem aluStatement_binary {f : AluFunction} (hf : f.isUnary = false) {a b : Operand} :
    aluStatement f a b = ⟨.alu f, [a, b]⟩ := by
  rw [aluStatement, hf]
  rfl

/-- The statement that has some cells as its code. Of two statements with the same code, the one
that says what the code is for. -/
def disassemble (cells : List Cell) : Option Statement :=
  match readAlu cells, cells with
  | some (f, a, b), _ => some (aluStatement f a b)
  | none, [cell] => (singles cell.data).lookup cell.opcode
  | none, [_, data, address] => some ⟨.str, [.immediate data.data, .immediate address.data]⟩
  | none, _ => none

/-- Cells that set up the ALU are never read as anything else. -/
theorem disassemble_of_readAlu {cells : List Cell} {f : AluFunction} {a b : Operand}
    (h : readAlu cells = some (f, a, b)) : disassemble cells = some (aluStatement f a b) := by
  simp only [disassemble, h]

/-! ## The inputs of the ALU -/

@[simp] theorem Slot.fetched_register (i : Fin 2) (r : UInt8) :
    Slot.fetched ⟨i, .register r⟩ = [] := rfl

@[simp] theorem Slot.loaded_register (i : Fin 2) (r : UInt8) :
    Slot.loaded ⟨i, .register r⟩ = [] := rfl

/-- A fetch starts with a change of the RAM's mode. -/
theorem unfetch_of_opcode_ne (i : Fin 2) {op : UInt8} (hop : op ≠ Opcode.ramMode) (data : UInt8)
    (cells : List Cell) : unfetch i (⟨op, data⟩ :: cells) = (none, ⟨op, data⟩ :: cells) := by
  unfold unfetch
  split
  next mode address output store rest h =>
    obtain ⟨rfl, rfl⟩ := List.cons.inj h
    exact if_neg fun hfetch => hop (congrArg Cell.opcode (List.cons.inj hfetch).1)
  next => rfl

/-- What is fetched for an input is read back as the address, if there is one. -/
theorem unfetch_fetched (i : Fin 2) (o : Operand) {cells : List Cell}
    (h : unfetch i cells = (none, cells)) :
    unfetch i (Slot.fetched ⟨i, o⟩ ++ cells) = (o.address?, cells) := by
  cases o with
  | address cell => exact if_pos rfl
  | _ => exact h

/-- What is fetched for the second input is not fetched for the first. -/
theorem unfetch_fetched_second (o : Operand) {op : UInt8} (hop : op ≠ Opcode.ramMode)
    (data : UInt8) (cells : List Cell) :
    unfetch 0 (Slot.fetched ⟨1, o⟩ ++ ⟨op, data⟩ :: cells) =
      (none, Slot.fetched ⟨1, o⟩ ++ ⟨op, data⟩ :: cells) := by
  cases o with
  | address cell => exact if_neg (by simp [fetch, storeInput, Opcode.storeR6, Opcode.storeR7])
  | _ => exact unfetch_of_opcode_ne 0 hop data cells

/-- What is loaded for an input is read back as the value, if there is one. -/
theorem unload_loaded (i : Fin 2) (o : Operand) {cells : List Cell}
    (h : unload i cells = (none, cells)) :
    unload i (Slot.loaded ⟨i, o⟩ ++ cells) = (o.immediate?, cells) := by
  cases o with
  | immediate value => exact if_pos rfl
  | _ => exact h

theorem unload_loaded_second (o : Operand) :
    unload 0 (Slot.loaded ⟨1, o⟩) = (none, Slot.loaded ⟨1, o⟩) := by
  cases o <;> rfl

/-- An operand that an input can take is known from what is fetched and loaded for it. -/
theorem operandAt_of_fitsInput {i : Fin 2} {o : Operand} (h : fitsInput o i = true) :
    operandAt i o.address? o.immediate? = o := by
  cases o with
  | register r =>
    have hget : AluFunction.inputs[i.val]? = some r := eq_of_beq h
    obtain ⟨_, hr⟩ := List.getElem?_eq_some_iff.mp hget
    exact congrArg Operand.register hr
  | _ => rfl

/-- The code of an ALU function shows the function and what each input is given. -/
theorem readAlu_eq (f : AluFunction) {a b : Operand} (ha : fitsInput a 0 = true)
    (hb : fitsInput b 1 = true) :
    readAlu (Slot.fetched ⟨0, a⟩ ++ Slot.fetched ⟨1, b⟩ ++
      ⟨Opcode.loadR5, f.selector⟩ :: (Slot.loaded ⟨0, a⟩ ++ Slot.loaded ⟨1, b⟩)) =
        some (f, a, b) := by
  have hselect : Opcode.loadR5 ≠ Opcode.ramMode := by decide
  have hload := unload_loaded 1 b (rfl : unload 1 [] = (none, []))
  rw [List.append_nil] at hload
  simp only [List.append_assoc, readAlu, Fin.zero_eta, Fin.mk_one, ↓reduceIte,
    AluFunction.ofSelector?_selector, unfetch_fetched 0 a (unfetch_fetched_second b hselect _ _),
    unfetch_fetched 1 b (unfetch_of_opcode_ne 1 hselect _ _),
    unload_loaded 0 a (unload_loaded_second b), hload, Option.map_some,
    operandAt_of_fitsInput (i := 0) ha, operandAt_of_fitsInput (i := 1) hb]

/-! ## Statements with the same code -/

/-- Pairs of statements with the same code. The first of the two says what the code is for. -/
inductive Statement.Alias : Statement → Statement → Prop where
  /-- Setting the ALU's first input is loading `r6`. -/
  | stra (value : UInt8) :
      Alias ⟨.stra, [.immediate value]⟩ ⟨.lrg, [.register 6, .immediate value]⟩
  /-- A jump to the position in `r0` has two names. -/
  | jmpr : Alias ⟨.jmpr, []⟩ ⟨.jmp, [.register 0]⟩
  /-- With its input in place, setting up the ALU is loading `r5` with the function. -/
  | unary {f : AluFunction} (hf : f.isUnary = true) :
      Alias ⟨.alu f, [.register 6]⟩ ⟨.lrg, [.register 5, .immediate f.selector]⟩
  /-- The same with two inputs. -/
  | binary {f : AluFunction} (hf : f.isUnary = false) :
      Alias ⟨.alu f, [.register 6, .register 7]⟩ ⟨.lrg, [.register 5, .immediate f.selector]⟩

/-- A statement is the first of at most one pair. -/
theorem Statement.Alias.right_unique {s t u : Statement} (h : Alias s t) (h' : Alias s u) :
    t = u := by
  cases h <;> cases h' <;> rfl

/-- Two such statements have the same cell. -/
theorem Statement.Alias.encodes {s t : Statement} (h : Alias s t) :
    ∃ c, Encodes s.mnemonic s.operands [c] ∧ Encodes t.mnemonic t.operands [c] := by
  cases h with
  | stra value => exact ⟨_, .stra value, .lrg (by decide) value⟩
  | jmpr => exact ⟨_, .jmpr, .jmpR0⟩
  | unary hf => exact ⟨_, .unary hf rfl, .lrg (by decide) _⟩
  | binary hf => exact ⟨_, .binary hf rfl rfl, .lrg (by decide) _⟩

theorem AluFunction.selector_of_ofSelector? {b : UInt8} {f : AluFunction}
    (h : ofSelector? b = some f) : f.selector = b := by
  have hb := List.find?_some h
  exact beq_iff_eq.mp hb

/-- Code of one cell that loads `r5` is read as the ALU function that the data byte selects. -/
theorem disassemble_loadR5 (value : UInt8) :
    ∃ s, disassemble [⟨Opcode.loadR5, value⟩] = some s ∧
      (s = ⟨.lrg, [.register 5, .immediate value]⟩ ∨
        Statement.Alias s ⟨.lrg, [.register 5, .immediate value]⟩) := by
  cases hf : AluFunction.ofSelector? value with
  | none =>
    have halu : readAlu [⟨Opcode.loadR5, value⟩] = none := by
      simp [readAlu, unfetch, hf]
    refine ⟨_, ?_, .inl rfl⟩
    simp only [disassemble, halu]
    rfl
  | some f =>
    obtain rfl := AluFunction.selector_of_ofSelector? hf
    have halu := readAlu_eq f (a := .register 6) (b := .register 7) rfl rfl
    refine ⟨_, disassemble_of_readAlu halu, .inr ?_⟩
    cases hf : f.isUnary with
    | true => exact aluStatement_unary hf ▸ .unary hf
    | false => exact aluStatement_binary hf ▸ .binary hf

/-- Reading code gives the statement that it was made from, or its alias. -/
theorem disassemble_of_encodes {m : Mnemonic} {operands : List Operand} {cells : List Cell}
    (h : Encodes m operands cells) : ∃ s, disassemble cells = some s ∧
      (s = ⟨m, operands⟩ ∨ Statement.Alias s ⟨m, operands⟩) := by
  cases h with
  | nop | zor | smo | sao | jmpr => exact ⟨_, rfl, .inl rfl⟩
  | str value cell => exact ⟨_, rfl, .inl rfl⟩
  | stra value => exact ⟨_, rfl, .inl rfl⟩
  | jmp target => exact ⟨_, rfl, .inl rfl⟩
  | jmpR0 => exact ⟨_, rfl, .inr .jmpr⟩
  | lrg h value =>
    simp only [loadOpcodes, List.mem_cons, Prod.mk.injEq, List.not_mem_nil, or_false] at h
    rcases h with ⟨rfl, rfl⟩ | ⟨rfl, rfl⟩ | ⟨rfl, rfl⟩
    · exact disassemble_loadR5 value
    · exact ⟨_, rfl, .inr (.stra value)⟩
    · exact ⟨_, rfl, .inl rfl⟩
  | sor h =>
    simp only [storeOpcodes, List.mem_cons, Prod.mk.injEq, List.not_mem_nil, or_false] at h
    rcases h with ⟨rfl, rfl⟩ | ⟨rfl, rfl⟩ | ⟨rfl, rfl⟩ | ⟨rfl, rfl⟩ | ⟨rfl, rfl⟩ | ⟨rfl, rfl⟩ <;>
      exact ⟨_, rfl, .inl rfl⟩
  | @unary f a hf ha =>
    -- a statement with one input is read as one whose second input is in place
    have halu := readAlu_eq f ha (b := .register 7) rfl
    rw [Slot.fetched_register, Slot.loaded_register, List.append_nil, List.append_nil] at halu
    exact ⟨_, disassemble_of_readAlu halu, .inl (aluStatement_unary hf)⟩
  | @binary f a b hf ha hb =>
    exact ⟨_, disassemble_of_readAlu (readAlu_eq f ha hb), .inl (aluStatement_binary hf)⟩

example : disassemble [⟨0x05, 0⟩, ⟨0x07, 3⟩, ⟨0x48, 0⟩, ⟨0x36, 0⟩, ⟨0x25, 1⟩, ⟨0x27, 9⟩] =
    some ⟨.alu .sub, [.address 3, .immediate 9]⟩ := rfl

/-! ## Code determines its statement -/

/-- Code is disassembled to the statement it came from, or to the one that goes before it in a pair.
-/
theorem Statement.disassemble_of_code {s : Statement} {f : Fragment} (h : s.code = .ok f) :
    ∃ u, disassemble f.cells = some u ∧ (u = s ∨ Alias u s) :=
  disassemble_of_encodes (Statement.code_eq_ok_iff.mp h)

/-- Different statements with the same code are one of the pairs. -/
theorem Statement.eq_or_alias_of_code {s t : Statement} {f : Fragment} (hs : s.code = .ok f)
    (ht : t.code = .ok f) : t = s ∨ Alias s t ∨ Alias t s := by
  obtain ⟨u, hu, hsu⟩ := Statement.disassemble_of_code hs
  obtain ⟨u', hu', htu⟩ := Statement.disassemble_of_code ht
  obtain rfl : u = u' := Option.some.inj (hu.symm.trans hu')
  rcases hsu with rfl | hsu
  · rcases htu with rfl | htu
    · exact .inl rfl
    · exact .inr (.inl htu)
  · rcases htu with rfl | htu
    · exact .inr (.inr hsu)
    · exact .inl (htu.right_unique hsu)

/-- Both statements of a pair have code, the same single cell. -/
theorem Statement.Alias.exists_code {s t : Statement} (h : Alias s t) :
    ∃ f : Fragment, f.length = 1 ∧ s.code = .ok f ∧ t.code = .ok f := by
  obtain ⟨c, hs, ht⟩ := h.encodes
  rw [← Fragment.cells_ofCells [c]] at hs ht
  exact ⟨_, rfl, Statement.code_eq_ok_iff.mpr hs, Statement.code_eq_ok_iff.mpr ht⟩

/-- An alias of a statement with code has the same code, and that is one position. -/
theorem Statement.code_of_alias {s t : Statement} {f : Fragment} (hs : s.code = .ok f)
    (h : Alias s t ∨ Alias t s) : t.code = .ok f ∧ f.length = 1 := by
  rcases h with h | h
  · obtain ⟨g, hlen, hsg, htg⟩ := h.exists_code
    obtain rfl := Except.ok.inj (hs.symm.trans hsg)
    exact ⟨htg, hlen⟩
  · obtain ⟨g, hlen, htg, hsg⟩ := h.exists_code
    obtain rfl := Except.ok.inj (hs.symm.trans hsg)
    exact ⟨htg, hlen⟩

/-- The statements with the same code as a given one are its aliases and itself. Only code of one
position has aliases; longer code determines its mnemonic and its operands. -/
theorem code_eq_ok_iff_alias {s : Statement} {f : Fragment} (hs : s.code = .ok f)
    (t : Statement) :
    (t.code = .ok f ↔ t = s ∨ s.Alias t ∨ t.Alias s) ∧
      (s.Alias t ∨ t.Alias s → f.length = 1) ∧ (2 ≤ f.length → t.code = .ok f → t = s) := by
  refine ⟨⟨Statement.eq_or_alias_of_code hs, ?_⟩, fun h => (Statement.code_of_alias hs h).2, ?_⟩
  · rintro (rfl | h)
    · exact hs
    · exact (Statement.code_of_alias hs h).1
  · intro hlen ht
    refine (Statement.eq_or_alias_of_code hs ht).resolve_right fun h => ?_
    have hone := (Statement.code_of_alias hs h).2
    omega

theorem code_eq_ok_iff_alias_in_place :
    let s : Statement := ⟨.alu .sub, [.register 6, .register 7]⟩
    let t : Statement := ⟨.lrg, [.register 5, .immediate 1]⟩
    let f := Fragment.ofCells [⟨0x25, 1⟩]
    s.code = .ok f ∧ t.code = .ok f ∧ t ≠ s ∧ f.length = 1 := by
  intro s t f
  have hs : s.code = .ok f := rfl
  have halias : s.Alias t ∨ t.Alias s := .inl (.binary rfl)
  obtain ⟨hiff, hlen, -⟩ := code_eq_ok_iff_alias hs t
  exact ⟨hs, hiff.mpr (.inr halias), by decide, hlen halias⟩

end TwinRom
