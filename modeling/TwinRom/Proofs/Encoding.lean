import TwinRom.Proofs.Outcome
import TwinRom.Source.Statement

/-!
# What statements are encoded to

`Encodes` lists the statements that have code, shape by shape, with the cells of the code. It is
the same as `Statement.code` (`Statement.code_eq_ok_iff`), which finds the cells in several steps:
it puts every operand in its place, picks an opcode row, and pairs the row with data bytes.
-/

namespace TwinRom

/-! ## The shapes -/

/-- The registers that the output can be stored in, with the opcodes that do it. -/
def storeOpcodes : List (UInt8 × UInt8) :=
  [(1, Opcode.storeR1), (2, Opcode.storeR2), (3, Opcode.storeR3), (5, Opcode.storeR5),
   (6, Opcode.storeR6), (7, Opcode.storeR7)]

/-- The registers that a byte can be loaded into, with the opcodes that do it. -/
def loadOpcodes : List (UInt8 × UInt8) :=
  [(5, Opcode.loadR5), (6, Opcode.loadR6), (7, Opcode.loadR7)]

/-- The opcode that loads a byte into the register of an ALU input. -/
def loadInput : Fin 2 → UInt8
  | 0 => Opcode.loadR6
  | 1 => Opcode.loadR7

/-- The cells that go behind the selection of an ALU function on behalf of a slot. -/
def Slot.loaded (s : Slot) : List Cell :=
  match s.operand with
  | .immediate value => [⟨loadInput s.index, value⟩]
  | _ => []

/-- The statements that have code, with its cells. -/
inductive Encodes : Mnemonic → List Operand → List Cell → Prop where
  | nop : Encodes .nop [] [⟨Opcode.nop, 0⟩]
  | zor : Encodes .zor [] [⟨Opcode.clearOutput, 0⟩]
  | str (value cell : UInt8) : Encodes .str [.immediate value, .immediate cell]
      [⟨Opcode.ramMode, Opcode.ramWrite⟩, ⟨Opcode.ramData, value⟩, ⟨Opcode.ramAddress, cell⟩]
  | stra (value : UInt8) : Encodes .stra [.immediate value] [⟨Opcode.loadR6, value⟩]
  | lrg {r op : UInt8} (h : (r, op) ∈ loadOpcodes) (value : UInt8) :
      Encodes .lrg [.register r, .immediate value] [⟨op, value⟩]
  | unary {f : AluFunction} {a : Operand} (hf : f.isUnary = true) (ha : fitsInput a 0 = true) :
      Encodes (.alu f) [a]
        (Slot.fetched ⟨0, a⟩ ++ ⟨Opcode.loadR5, f.selector⟩ :: Slot.loaded ⟨0, a⟩)
  | binary {f : AluFunction} {a b : Operand} (hf : f.isUnary = false)
      (ha : fitsInput a 0 = true) (hb : fitsInput b 1 = true) :
      Encodes (.alu f) [a, b]
        (Slot.fetched ⟨0, a⟩ ++ Slot.fetched ⟨1, b⟩ ++
          ⟨Opcode.loadR5, f.selector⟩ :: (Slot.loaded ⟨0, a⟩ ++ Slot.loaded ⟨1, b⟩))
  | sor {r op : UInt8} (h : (r, op) ∈ storeOpcodes) : Encodes .sor [.register r] [⟨op, 0⟩]
  | smo : Encodes .smo [] [⟨Opcode.ramToOutput, 0⟩]
  | sao : Encodes .sao [] [⟨Opcode.aluToOutput, 0⟩]
  | jmp (target : UInt8) : Encodes .jmp [.immediate target] [⟨Opcode.jump, target⟩]
  | jmpR0 : Encodes .jmp [.register 0] [⟨Opcode.jumpR0, 0⟩]
  | jmpr : Encodes .jmpr [] [⟨Opcode.jumpR0, 0⟩]

/-! ## The opcode row -/

/-- The banks as a table: registers, their bank and their place in it. -/
def Bank.places : List (UInt8 × Bank × Nat) :=
  [(1, .low, 0), (2, .low, 1), (3, .low, 2), (5, .high, 0), (6, .high, 1), (7, .high, 2)]

/-- A register is in a bank, at a place of it, exactly if the table says so. -/
theorem Bank.ofRegister?_eq_some_iff {r : UInt8} {bank : Bank} {place : Nat} :
    Bank.ofRegister? r = some (bank, place) ↔ (r, bank, place) ∈ Bank.places := by
  constructor
  · intro h
    unfold Bank.ofRegister? at h
    split at h
    next hr =>
      obtain ⟨rfl, rfl⟩ := Prod.mk.inj (Option.some.inj h)
      obtain ⟨h1, h3⟩ := hr
      obtain rfl | rfl | rfl : r = 1 ∨ r = 2 ∨ r = 3 := by
        simp only [UInt8.le_iff_toNat_le, UInt8.reduceToNat, ← UInt8.toNat_inj] at *
        omega
      all_goals decide
    next =>
      split at h
      next hr =>
        obtain ⟨rfl, rfl⟩ := Prod.mk.inj (Option.some.inj h)
        obtain ⟨h5, h7⟩ := hr
        obtain rfl | rfl | rfl : r = 5 ∨ r = 6 ∨ r = 7 := by
          simp only [UInt8.le_iff_toNat_le, UInt8.reduceToNat, ← UInt8.toNat_inj] at *
          omega
        all_goals decide
      next => cases h
  · intro h
    simp only [Bank.places, List.mem_cons, Prod.mk.injEq, List.not_mem_nil, or_false] at h
    rcases h with ⟨rfl, rfl, rfl⟩ | ⟨rfl, rfl, rfl⟩ | ⟨rfl, rfl, rfl⟩ | ⟨rfl, rfl, rfl⟩ |
      ⟨rfl, rfl, rfl⟩ | ⟨rfl, rfl, rfl⟩ <;> decide

theorem AluFunction.arity_eq_one_iff {f : AluFunction} : f.arity = 1 ↔ f.isUnary = true := by
  unfold arity
  split <;> simp_all

theorem AluFunction.arity_eq_two_iff {f : AluFunction} : f.arity = 2 ↔ f.isUnary = false := by
  unfold arity
  split <;> simp_all

theorem Mnemonic.arity_le_two (m : Mnemonic) : m.arity ≤ 2 := by
  cases m with
  | alu f => exact f.arity_le_two
  | _ => decide

/-! ## The cells -/

/-- Some operands as the slots they are made into. -/
def slotsOf (operands : List Operand) : List Slot :=
  operands.zipIdx.map fun p => ⟨Fin.ofNat 2 p.2, p.1⟩

/-- The slot for an operand in a place. -/
def slotAt (p : Nat × Operand) : Slot := ⟨Fin.ofNat 2 p.1, p.2⟩

@[simp] theorem map_operand_slotsOf (operands : List Operand) :
    (slotsOf operands).map Slot.operand = operands := by
  simp [slotsOf, Function.comp_def]

@[simp] theorem length_slotsOf (operands : List Operand) :
    (slotsOf operands).length = operands.length := by
  simp [slotsOf]

/-- Operands that are put in their places in order are all in place. -/
theorem misplaced?_slotsOf : ∀ {operands : List Operand}, operands.length ≤ 2 →
    misplaced? (slotsOf operands) = none
  | [], _ => rfl
  | [_], _ => rfl
  | [_, _], _ => rfl

/-- A function of one input fetches it, then selects the function and loads the input. -/
theorem emit_unary {f : AluFunction} (hf : f.isUnary = true) (a : Operand) {v : Nat}
    (hv : v < (Mnemonic.alu f).variants.length) :
    emit (.alu f) (Mnemonic.alu f).variants[v] (slotsOf [a]) =
      Slot.fetched ⟨0, a⟩ ++ ⟨Opcode.loadR5, f.selector⟩ :: Slot.loaded ⟨0, a⟩ := by
  obtain rfl : v = 0 := by simpa [Mnemonic.variants, hf] using hv
  cases a <;> simp [slotsOf, emit, loads, Mnemonic.isAlu, Mnemonic.variants, Mnemonic.template, hf,
    Slot.loaded, Operand.immediate?, loadInput]

/-- A function of two inputs fetches both before it selects the function and loads them. -/
theorem emit_binary {f : AluFunction} (hf : f.isUnary = false) (a b : Operand) {v : Nat}
    (hv : v < (Mnemonic.alu f).variants.length) :
    emit (.alu f) (Mnemonic.alu f).variants[v] (slotsOf [a, b]) =
      Slot.fetched ⟨0, a⟩ ++ Slot.fetched ⟨1, b⟩ ++
        ⟨Opcode.loadR5, f.selector⟩ :: (Slot.loaded ⟨0, a⟩ ++ Slot.loaded ⟨1, b⟩) := by
  obtain rfl : v = 0 := by simpa [Mnemonic.variants, hf] using hv
  cases a <;> cases b <;> simp [slotsOf, emit, loads, Mnemonic.isAlu, Mnemonic.variants,
    Mnemonic.template, hf, Slot.loaded, Operand.immediate?, loadInput]

/-- The row of a store depends on the register that is written. -/
theorem encodes_sor {r : UInt8} {v : Nat} (hlt : v < Mnemonic.sor.variants.length)
    (hv : variant? .sor [.register r] = some v) :
    Encodes .sor [.register r] (emit .sor Mnemonic.sor.variants[v] (slotsOf [.register r])) := by
  simp only [variant?] at hv
  split at hv
  next place hp =>
    obtain rfl := Option.some.inj hv
    have hmem := Bank.ofRegister?_eq_some_iff.mp hp
    simp only [Bank.places, List.mem_cons, Prod.mk.injEq, reduceCtorEq, false_and, and_false,
      true_and, List.not_mem_nil, or_false] at hmem
    rcases hmem with ⟨rfl, rfl⟩ | ⟨rfl, rfl⟩ | ⟨rfl, rfl⟩ <;> exact .sor (by decide)
  next place hp =>
    obtain rfl := Option.some.inj hv
    have hmem := Bank.ofRegister?_eq_some_iff.mp hp
    simp only [Bank.places, List.mem_cons, Prod.mk.injEq, reduceCtorEq, false_and, and_false,
      true_and, List.not_mem_nil, or_false, false_or] at hmem
    rcases hmem with ⟨rfl, rfl⟩ | ⟨rfl, rfl⟩ | ⟨rfl, rfl⟩ <;> exact .sor (by decide)
  next => cases hv

/-- The row of a load depends on the register that is written. -/
theorem encodes_lrg {r value : UInt8} {v : Nat} (hlt : v < Mnemonic.lrg.variants.length)
    (hv : variant? .lrg [.register r, .immediate value] = some v) :
    Encodes .lrg [.register r, .immediate value]
      (emit .lrg Mnemonic.lrg.variants[v] (slotsOf [.register r, .immediate value])) := by
  simp only [variant?] at hv
  split at hv
  next place hp =>
    obtain rfl := Option.some.inj hv
    have hmem := Bank.ofRegister?_eq_some_iff.mp hp
    simp only [Bank.places, List.mem_cons, Prod.mk.injEq, reduceCtorEq, false_and, and_false,
      true_and, List.not_mem_nil, or_false, false_or] at hmem
    rcases hmem with ⟨rfl, rfl⟩ | ⟨rfl, rfl⟩ | ⟨rfl, rfl⟩
    · exact @Encodes.lrg 5 Opcode.loadR5 (by decide) value
    · exact @Encodes.lrg 6 Opcode.loadR6 (by decide) value
    · exact @Encodes.lrg 7 Opcode.loadR7 (by decide) value
  next => cases hv

/-- An ALU function has one row, for operands that all fit the inputs at their places. -/
theorem variant?_alu_eq_some_iff {f : AluFunction} {operands : List Operand} {v : Nat} :
    variant? (.alu f) operands = some v ↔
      (∀ p ∈ operands.zipIdx, fitsInput p.1 p.2 = true) ∧ v = 0 := by
  rw [← List.all_eq_true, variant?]
  split
  next hfit => simp [hfit, eq_comm (a := v)]
  next hfit => simp [hfit]

/-- What is emitted for an ALU function is its encoding, however many inputs it has. -/
theorem encodes_alu {f : AluFunction} : ∀ {operands : List Operand} {v : Nat},
    f.arity = operands.length → (hlt : v < (Mnemonic.alu f).variants.length) →
    variant? (.alu f) operands = some v →
    Encodes (.alu f) operands (emit (.alu f) (Mnemonic.alu f).variants[v] (slotsOf operands))
  | [], _, ha, _, _ => by cases f <;> cases ha
  | [a], _, ha, hlt, hv => by
    have hf := AluFunction.arity_eq_one_iff.mp ha
    have hfit := (variant?_alu_eq_some_iff.mp hv).1
    rw [emit_unary hf]
    exact .unary hf (hfit (a, 0) (by simp))
  | [a, b], _, ha, hlt, hv => by
    have hf := AluFunction.arity_eq_two_iff.mp ha
    have hfit := (variant?_alu_eq_some_iff.mp hv).1
    rw [emit_binary hf]
    exact .binary hf (hfit (a, 0) (by simp)) (hfit (b, 1) (by simp))
  | _ :: _ :: _ :: _, _, ha, _, _ => by cases f <;> cases ha

/-- The cells that a row gives are those of the shape. -/
theorem encodes_emit {m : Mnemonic} {operands : List Operand} {v : Nat}
    (ha : m.arity = operands.length) (hlt : v < m.variants.length)
    (hv : variant? m operands = some v) :
    Encodes m operands (emit m m.variants[v] (slotsOf operands)) := by
  have hv' := hv
  unfold variant? at hv
  split at hv
  case h_1 => obtain rfl := Option.some.inj hv; exact .nop
  case h_2 => obtain rfl := Option.some.inj hv; exact .zor
  case h_3 => obtain rfl := Option.some.inj hv; exact .smo
  case h_4 => obtain rfl := Option.some.inj hv; exact .sao
  case h_5 => obtain rfl := Option.some.inj hv; exact .jmpr
  case h_6 value => obtain rfl := Option.some.inj hv; exact .stra value
  case h_7 value cell => obtain rfl := Option.some.inj hv; exact .str value cell
  case h_8 target => obtain rfl := Option.some.inj hv; exact .jmp target
  case h_9 r =>
    split at hv
    next hr =>
      obtain rfl := Option.some.inj hv
      subst hr
      exact .jmpR0
    next => cases hv
  case h_10 r => exact encodes_sor hlt hv'
  case h_11 r value => exact encodes_lrg hlt hv'
  case h_12 f => exact encodes_alu ha hlt hv'
  case h_13 => cases hv

/-- An operand can go in each place below the arity, a RAM cell only in one of an ALU function. -/
theorem Slot.make_eq_ok_iff {m : Mnemonic} {i : Nat} {o : Operand} {s : Slot} :
    Slot.make m i o = .ok s ↔ i < m.arity ∧ (o.kind = .address → m.isAlu = true) ∧
      ∃ h : i < 2, s = ⟨⟨i, h⟩, o⟩ := by
  unfold Slot.make
  split
  next h =>
    obtain ⟨ha, h2⟩ := h
    cases o with
    | address cell =>
      cases hm : m.isAlu <;>
        simp [fetchFor, hm, ha, h2, Operand.kind, Except.map, eq_comm (a := s)]
    | _ => simp [ha, h2, Operand.kind, eq_comm (a := s)]
  next h =>
    constructor
    · intro hs
      cases hs
    · rintro ⟨ha, -, h2, -⟩
      exact absurd ⟨ha, h2⟩ h

/-- A slot that is made depends on its place and its operand only. -/
theorem Slot.eq_of_make {m : Mnemonic} {i : Nat} {o : Operand} {s : Slot}
    (h : Slot.make m i o = .ok s) : s = ⟨Fin.ofNat 2 i, o⟩ := by
  obtain ⟨-, -, h2, rfl⟩ := Slot.make_eq_ok_iff.mp h
  simp [Fin.ofNat, Nat.mod_eq_of_lt h2]

/-- The slots of a statement are its operands in order, provided that each has a place. -/
theorem Statement.slots_eq_ok_iff {s : Statement} {slots : List Slot} :
    s.slots = .ok slots ↔ s.operands.length ≤ s.mnemonic.arity ∧
      (∀ o ∈ s.operands, o.kind = .address → s.mnemonic.isAlu = true) ∧
        slots = slotsOf s.operands := by
  rw [Statement.slots, mapM_eq_ok_iff_of_unique fun _ _ => Slot.eq_of_make, ← and_assoc]
  refine and_congr_left fun _ => ?_
  simp only [Slot.make_eq_ok_iff, Prod.forall, List.mem_zipIdx_iff_getElem?]
  constructor
  · intro h
    refine ⟨Nat.le_of_not_lt fun hlt => ?_, fun o ho => ?_⟩
    · exact Nat.lt_irrefl _ (h _ _ (List.getElem?_eq_getElem hlt)).1
    · obtain ⟨i, hi⟩ := List.mem_iff_getElem?.mp ho
      exact (h o i hi).2.1
  · rintro ⟨hlen, haddr⟩ o i hi
    have hlt : i < s.operands.length := (List.getElem?_eq_some_iff.mp hi).1
    have h2 := s.mnemonic.arity_le_two
    have hi2 : i < 2 := by omega
    refine ⟨by omega, haddr o (List.mem_of_getElem? hi), hi2, ?_⟩
    simp [Fin.ofNat, Nat.mod_eq_of_lt hi2]

section Encode

variable {m : Mnemonic} {slots : List Slot}

/-- The number of operands is looked at first. -/
theorem encode_of_arity_ne (h : m.arity ≠ slots.length) :
    encode m slots = .error (.arityMismatch m.name.toList m.arity slots.length) := by
  rw [encode, checkArity, if_neg h]
  rfl

/-- The places are looked at once the number is right. -/
theorem encode_of_misplaced {s : Slot} (ha : m.arity = slots.length)
    (hs : misplaced? slots = some s) : encode m slots = .error (.invalidSlot s.index) := by
  rw [encode, checkArity, if_pos ha, hs]
  rfl

theorem encode_of_variant {v : Nat} (ha : m.arity = slots.length) (hs : misplaced? slots = none)
    (hv : variant? m (slots.map Slot.operand) = some v) :
    encode m slots = .ok (.ofCells (emit m (m.variants.get ⟨v, variant?_lt hv⟩) slots)) := by
  rw [encode, checkArity, if_pos ha, hs]
  simp only
  split
  next w hw =>
    obtain rfl : v = w := Option.some.inj (hv.symm.trans hw)
    rfl
  next hn => cases hv.symm.trans hn

theorem encode_of_no_variant (ha : m.arity = slots.length) (hs : misplaced? slots = none)
    (hv : variant? m (slots.map Slot.operand) = none) :
    encode m slots =
      .error (.unsupportedShape m.name.toList (Operand.shape (slots.map Slot.operand))) := by
  rw [encode, checkArity, if_pos ha, hs]
  simp only
  split
  next w hw => cases hv.symm.trans hw
  next => rfl

/-- Encoding succeeds if all three checks do. -/
theorem encode_eq_ok_iff {f : Fragment} :
    encode m slots = .ok f ↔ m.arity = slots.length ∧ misplaced? slots = none ∧
      ∃ v, ∃ h : v < m.variants.length, variant? m (slots.map Slot.operand) = some v ∧
        f = .ofCells (emit m m.variants[v] slots) := by
  constructor
  · intro h
    by_cases ha : m.arity = slots.length
    · cases hs : misplaced? slots with
      | some s => cases (encode_of_misplaced ha hs).symm.trans h
      | none =>
        cases hv : variant? m (slots.map Slot.operand) with
        | some v =>
          have hf := Except.ok.inj ((encode_of_variant ha hs hv).symm.trans h)
          exact ⟨ha, rfl, v, variant?_lt hv, rfl, hf.symm⟩
        | none => cases (encode_of_no_variant ha hs hv).symm.trans h
    · cases (encode_of_arity_ne ha).symm.trans h
  · rintro ⟨ha, hs, v, -, hv, rfl⟩
    exact encode_of_variant ha hs hv

end Encode

/-- Every encoding in the list is found by the encoder, which picks its row and emits its cells. -/
theorem Encodes.exists_variant {m : Mnemonic} {operands : List Operand} {cells : List Cell}
    (h : Encodes m operands cells) : m.arity = operands.length ∧
      (∀ o ∈ operands, o.kind = .address → m.isAlu = true) ∧
      ∃ v, ∃ hlt : v < m.variants.length, variant? m operands = some v ∧
        emit m m.variants[v] (slotsOf operands) = cells := by
  cases h with
  | nop | zor | smo | sao | jmpr => exact ⟨rfl, by simp, 0, by decide, rfl, rfl⟩
  | str value cell => exact ⟨rfl, by simp [Operand.kind], 0, by decide, rfl, rfl⟩
  | stra value => exact ⟨rfl, by simp [Operand.kind], 0, by decide, rfl, rfl⟩
  | jmp target => exact ⟨rfl, by simp [Operand.kind], 0, by decide, rfl, rfl⟩
  | jmpR0 => exact ⟨rfl, by simp [Operand.kind], 1, by decide, rfl, rfl⟩
  | lrg h value =>
    refine ⟨rfl, by simp [Operand.kind], ?_⟩
    simp only [loadOpcodes, List.mem_cons, Prod.mk.injEq, List.not_mem_nil, or_false] at h
    rcases h with ⟨rfl, rfl⟩ | ⟨rfl, rfl⟩ | ⟨rfl, rfl⟩
    · exact ⟨0, by decide, rfl, rfl⟩
    · exact ⟨1, by decide, rfl, rfl⟩
    · exact ⟨2, by decide, rfl, rfl⟩
  | sor h =>
    refine ⟨rfl, by simp [Operand.kind], ?_⟩
    simp only [storeOpcodes, List.mem_cons, Prod.mk.injEq, List.not_mem_nil, or_false] at h
    rcases h with ⟨rfl, rfl⟩ | ⟨rfl, rfl⟩ | ⟨rfl, rfl⟩ | ⟨rfl, rfl⟩ | ⟨rfl, rfl⟩ | ⟨rfl, rfl⟩
    · exact ⟨0, by decide, rfl, rfl⟩
    · exact ⟨1, by decide, rfl, rfl⟩
    · exact ⟨2, by decide, rfl, rfl⟩
    · exact ⟨3, by decide, rfl, rfl⟩
    · exact ⟨4, by decide, rfl, rfl⟩
    · exact ⟨5, by decide, rfl, rfl⟩
  | @unary f a hf ha =>
    have hlt : 0 < (Mnemonic.alu f).variants.length := by simp [Mnemonic.variants, hf]
    refine ⟨AluFunction.arity_eq_one_iff.mpr hf, by simp [Mnemonic.isAlu], 0, hlt, ?_,
      emit_unary hf a hlt⟩
    exact variant?_alu_eq_some_iff.mpr ⟨by simp [ha], rfl⟩
  | @binary f a b hf ha hb =>
    have hlt : 0 < (Mnemonic.alu f).variants.length := by simp [Mnemonic.variants, hf]
    refine ⟨AluFunction.arity_eq_two_iff.mpr hf, by simp [Mnemonic.isAlu], 0, hlt, ?_,
      emit_binary hf a b hlt⟩
    exact variant?_alu_eq_some_iff.mpr ⟨by simp [ha, hb], rfl⟩

/-- A statement has code exactly if it has one of the shapes, and then it is that of the shape. -/
theorem Statement.code_eq_ok_iff {s : Statement} {f : Fragment} :
    s.code = .ok f ↔ Encodes s.mnemonic s.operands f.cells := by
  rw [Statement.code, bind_eq_ok_iff]
  constructor
  · rintro ⟨slots, hs, he⟩
    obtain ⟨-, -, rfl⟩ := Statement.slots_eq_ok_iff.mp hs
    obtain ⟨ha, -, v, hlt, hv, rfl⟩ := encode_eq_ok_iff.mp he
    rw [length_slotsOf] at ha
    rw [map_operand_slotsOf] at hv
    rw [Fragment.cells_ofCells]
    exact encodes_emit ha hlt hv
  · intro h
    obtain ⟨ha, haddr, v, hlt, hv, hcells⟩ := h.exists_variant
    have h2 := s.mnemonic.arity_le_two
    refine ⟨slotsOf s.operands, Statement.slots_eq_ok_iff.mpr ⟨Nat.le_of_eq ha.symm, haddr, rfl⟩,
      encode_eq_ok_iff.mpr ⟨?_, misplaced?_slotsOf (by omega), v, hlt, ?_, ?_⟩⟩
    · rwa [length_slotsOf]
    · rwa [map_operand_slotsOf]
    · rw [hcells, ← Fragment.cells_inj, Fragment.cells_ofCells]

/-! ## What all code has in common -/

/-- Fetching a RAM cell takes defined opcodes. -/
theorem Slot.isDefined_of_mem_fetched (s : Slot) :
    ∀ c ∈ s.fetched, Opcode.isDefined c.opcode = true := by
  intro c hc
  obtain ⟨i, o⟩ := s
  cases o with
  | address cell =>
    simp only [Slot.fetched, fetch, List.mem_cons, List.not_mem_nil, or_false] at hc
    rcases hc with rfl | rfl | rfl | rfl
    · rfl
    · rfl
    · rfl
    · match i with
      | 0 => rfl
      | 1 => rfl
  | _ => cases hc

/-- Loading an input takes a defined opcode. -/
theorem Slot.isDefined_of_mem_loaded (s : Slot) :
    ∀ c ∈ s.loaded, Opcode.isDefined c.opcode = true := by
  intro c hc
  obtain ⟨i, o⟩ := s
  cases o with
  | immediate value =>
    simp only [Slot.loaded, List.mem_singleton] at hc
    subst hc
    match i with
    | 0 => rfl
    | 1 => rfl
  | _ => cases hc

theorem isDefined_of_mem_loadOpcodes {r op : UInt8} (h : (r, op) ∈ loadOpcodes) :
    Opcode.isDefined op = true := by
  simp only [loadOpcodes, List.mem_cons, Prod.mk.injEq, List.not_mem_nil, or_false] at h
  rcases h with ⟨-, rfl⟩ | ⟨-, rfl⟩ | ⟨-, rfl⟩ <;> rfl

theorem isDefined_of_mem_storeOpcodes {r op : UInt8} (h : (r, op) ∈ storeOpcodes) :
    Opcode.isDefined op = true := by
  simp only [storeOpcodes, List.mem_cons, Prod.mk.injEq, List.not_mem_nil, or_false] at h
  rcases h with ⟨-, rfl⟩ | ⟨-, rfl⟩ | ⟨-, rfl⟩ | ⟨-, rfl⟩ | ⟨-, rfl⟩ | ⟨-, rfl⟩ <;> rfl

/-- Code holds defined opcodes only. -/
theorem Encodes.isDefined {m : Mnemonic} {operands : List Operand} {cells : List Cell}
    (h : Encodes m operands cells) : ∀ c ∈ cells, Opcode.isDefined c.opcode = true := by
  intro c hc
  cases h with
  | lrg h value =>
    rw [List.mem_singleton.mp hc]
    exact isDefined_of_mem_loadOpcodes h
  | sor h =>
    rw [List.mem_singleton.mp hc]
    exact isDefined_of_mem_storeOpcodes h
  | str value cell =>
    simp only [List.mem_cons, List.not_mem_nil, or_false] at hc
    rcases hc with rfl | rfl | rfl <;> rfl
  | @unary f a hf ha =>
    simp only [List.mem_append, List.mem_cons] at hc
    rcases hc with hc | rfl | hc
    · exact Slot.isDefined_of_mem_fetched _ c hc
    · rfl
    · exact Slot.isDefined_of_mem_loaded _ c hc
  | @binary f a b hf ha hb =>
    simp only [List.mem_append, List.mem_cons] at hc
    rcases hc with (hc | hc) | rfl | hc | hc
    · exact Slot.isDefined_of_mem_fetched _ c hc
    · exact Slot.isDefined_of_mem_fetched _ c hc
    · rfl
    · exact Slot.isDefined_of_mem_loaded _ c hc
    · exact Slot.isDefined_of_mem_loaded _ c hc
  | _ =>
    rw [List.mem_singleton.mp hc]
    rfl

/-- An input is fetched in four positions or loaded in one, never both. -/
theorem Slot.length_fetched_add_length_loaded_le (s : Slot) :
    s.fetched.length + s.loaded.length ≤ 4 := by
  obtain ⟨i, o⟩ := s
  cases o <;> simp [Slot.fetched, Slot.loaded, fetch]

/-- A statement needs at most nine positions: two cells to fetch and a function to select. -/
theorem Encodes.length_le {m : Mnemonic} {operands : List Operand} {cells : List Cell}
    (h : Encodes m operands cells) : cells.length ≤ 9 := by
  cases h with
  | @unary f a hf ha =>
    have h0 := Slot.length_fetched_add_length_loaded_le ⟨0, a⟩
    simp only [List.length_append, List.length_cons]
    omega
  | @binary f a b hf ha hb =>
    have h0 := Slot.length_fetched_add_length_loaded_le ⟨0, a⟩
    have h1 := Slot.length_fetched_add_length_loaded_le ⟨1, b⟩
    simp only [List.length_append, List.length_cons]
    omega
  | _ => simp

end TwinRom
