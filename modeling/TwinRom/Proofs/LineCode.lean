import TwinRom.Proofs.Encoding

/-!
# The code of a line

A line has the code of its statement (`Line.statement?`), or none if it has no tokens
(`Line.code_eq_ok_iff`). Whatever the line, its code needs at most nine positions
(`Line.length_le_of_code`) and holds defined opcodes only (`Line.isDefined_of_code`). What each
step on the way can find fault with is said once, and the fault of a line that has no code is one
of the line itself (`Line.isOfLine_of_code`).
-/

namespace TwinRom

/-! ## Lines with code -/

/-- The statement on a line, if there is one. -/
def Line.statement? (text : Text) : Option Statement :=
  match Line.tokens text with
  | .ok (name :: operands) => (Statement.ofTokens name operands).toOption
  | _ => none

/-- A line has a statement if it has tokens and these can be read as one. -/
theorem Line.statement?_eq_some_iff {text : Text} {s : Statement} :
    Line.statement? text = some s ↔ ∃ name operands, Line.tokens text = .ok (name :: operands) ∧
      Statement.ofTokens name operands = .ok s := by
  unfold Line.statement?
  split
  next name operands ht =>
    constructor
    · intro h
      cases hs : Statement.ofTokens name operands with
      | error fault => simp [hs, Except.toOption] at h
      | ok s' =>
        obtain rfl : s' = s := by simpa [hs, Except.toOption] using h
        exact ⟨name, operands, ht, hs⟩
    · rintro ⟨name', operands', ht', hs⟩
      obtain ⟨rfl, rfl⟩ := List.cons.inj (Except.ok.inj (ht.symm.trans ht'))
      simp [hs, Except.toOption]
  next hn =>
    constructor
    · intro h
      cases h
    · rintro ⟨name, operands, ht, -⟩
      exact absurd ht (hn name operands)

theorem Line.statement?_eq_none_of_tokens {text : Text} (h : Line.tokens text = .ok []) :
    Line.statement? text = none := by
  rw [Line.statement?, h]

/-- The code of a line is that of its statement, or nothing for a line without tokens. -/
theorem Line.code_eq_ok_iff {text : Text} {f : Fragment} :
    Line.code text = .ok f ↔ Line.tokens text = .ok [] ∧ f = .empty ∨
      ∃ s, Line.statement? text = some s ∧ s.code = .ok f := by
  simp only [Line.code, bind_eq_ok_iff, Line.statement?_eq_some_iff]
  constructor
  · rintro ⟨tokens, ht, h⟩
    cases tokens with
    | nil => exact .inl ⟨ht, (Except.ok.inj h).symm⟩
    | cons name operands =>
      obtain ⟨s, hs, hc⟩ := bind_eq_ok_iff.mp h
      exact .inr ⟨s, ⟨name, operands, ht, hs⟩, hc⟩
  · rintro (⟨ht, rfl⟩ | ⟨s, ⟨name, operands, ht, hs⟩, hc⟩)
    · exact ⟨[], ht, rfl⟩
    · exact ⟨name :: operands, ht, bind_eq_ok_iff.mpr ⟨s, hs, hc⟩⟩

/-- A line never adds an opcode that is not defined. -/
theorem Line.isDefined_of_code {text : Text} {f : Fragment} (h : Line.code text = .ok f) :
    ∀ op ∈ f.instructions, Opcode.isDefined op = true := by
  intro op hop
  rcases Line.code_eq_ok_iff.mp h with ⟨-, rfl⟩ | ⟨s, -, hs⟩
  · cases hop
  · rw [← f.map_opcode_cells] at hop
    obtain ⟨c, hc, rfl⟩ := List.mem_map.mp hop
    exact (Statement.code_eq_ok_iff.mp hs).isDefined c hc

/-- Nine positions are needed by an ALU function of two RAM cells, and no line needs more. -/
theorem Line.length_le_of_code {text : Text} {f : Fragment} (h : Line.code text = .ok f) :
    f.length ≤ 9 := by
  rcases Line.code_eq_ok_iff.mp h with ⟨-, rfl⟩ | ⟨s, -, hs⟩
  · exact Nat.zero_le 9
  · rw [← f.length_cells]
    exact (Statement.code_eq_ok_iff.mp hs).length_le

/-! ## The faults of each step -/

theorem fault_of_checkArity {m : Mnemonic} {got : Nat} {fault : Fault}
    (h : checkArity m got = .error fault) :
    m.arity ≠ got ∧ fault = .arityMismatch m.name.toList m.arity got := by
  unfold checkArity at h
  split at h
  next => cases h
  next hne => exact ⟨hne, (Except.error.inj h).symm⟩

/-- A token is no operand because of its form or because of its number. -/
theorem Operand.fault_of_classify {token : Text} {fault : Fault}
    (h : Operand.classify token = .error fault) :
    fault = .invalidOperand token ∨
      ∃ kind value, fault = .outOfRange kind value kind.bound.toNat := by
  unfold Operand.classify Operand.bounded at h
  split at h
  split at h
  next =>
    split at h
    · cases h
    · exact .inr ⟨_, _, (Except.error.inj h).symm⟩
  next => exact .inl (Except.error.inj h).symm

/-- An operand has no place, or it is a RAM cell and only the ALU could take it. -/
theorem Slot.fault_of_make {m : Mnemonic} {i : Nat} {o : Operand} {fault : Fault}
    (h : Slot.make m i o = .error fault) :
    ¬i < m.arity ∧ fault = .invalidSlot i ∨
      m.isAlu = false ∧ o.kind = .address ∧ fault = .addressNotSupported m.name.toList := by
  unfold Slot.make at h
  split at h
  next hi =>
    cases o with
    | address cell =>
      rw [map_eq_error_iff, fetchFor] at h
      split at h
      next =>
        rw [dif_pos hi.2] at h
        cases h
      next halu => exact .inr ⟨by simpa using halu, rfl, (Except.error.inj h).symm⟩
    | _ => cases h
  next hi =>
    refine .inl ⟨fun hlt => hi ⟨hlt, ?_⟩, (Except.error.inj h).symm⟩
    exact Nat.lt_of_lt_of_le hlt m.arity_le_two

/-- The faults of the encoder, in the order in which it looks for them. -/
theorem fault_of_encode {m : Mnemonic} {slots : List Slot} {fault : Fault}
    (h : encode m slots = .error fault) :
    m.arity ≠ slots.length ∧ fault = .arityMismatch m.name.toList m.arity slots.length ∨
      (∃ s, misplaced? slots = some s ∧ fault = .invalidSlot s.index) ∨
      misplaced? slots = none ∧
        fault = .unsupportedShape m.name.toList (Operand.shape (slots.map Slot.operand)) := by
  by_cases ha : m.arity = slots.length
  · cases hs : misplaced? slots with
    | some s =>
      have hfault := Except.error.inj ((encode_of_misplaced ha hs).symm.trans h)
      exact .inr (.inl ⟨s, rfl, hfault.symm⟩)
    | none =>
      cases hv : variant? m (slots.map Slot.operand) with
      | some v => cases (encode_of_variant ha hs hv).symm.trans h
      | none =>
        have hfault := Except.error.inj ((encode_of_no_variant ha hs hv).symm.trans h)
        exact .inr (.inr ⟨rfl, hfault.symm⟩)
  · exact .inl ⟨ha, Except.error.inj (h.symm.trans (encode_of_arity_ne ha))⟩

/-- The faults that a statement can have. -/
theorem Statement.fault_cases {s : Statement} {fault : Fault} (h : s.code = .error fault) :
    (∃ index, fault = .invalidSlot index) ∨
      fault = .addressNotSupported s.mnemonic.name.toList ∨
      (∃ got, fault = .arityMismatch s.mnemonic.name.toList s.mnemonic.arity got) ∨
      ∃ shape, fault = .unsupportedShape s.mnemonic.name.toList shape := by
  rw [Statement.code, bind_eq_error_iff] at h
  rcases h with h | ⟨slots, -, h⟩
  · obtain ⟨-, p, -, -, -, hp⟩ := mapM_eq_error_iff.mp h
    rcases Slot.fault_of_make hp with ⟨-, rfl⟩ | ⟨-, -, rfl⟩
    · exact .inl ⟨_, rfl⟩
    · exact .inr (.inl rfl)
  · rcases fault_of_encode h with ⟨-, rfl⟩ | ⟨_, -, rfl⟩ | ⟨-, rfl⟩
    · exact .inr (.inr (.inl ⟨_, rfl⟩))
    · exact .inl ⟨_, rfl⟩
    · exact .inr (.inr (.inr ⟨_, rfl⟩))

/-- The faults of reading a statement, in the order in which they are looked for. -/
theorem Statement.fault_of_ofTokens {name : Text} {tokens : List Text} {fault : Fault}
    (h : Statement.ofTokens name tokens = .error fault) :
    fault = .unknownInstruction name ∨
      (∃ m : Mnemonic, fault = .arityMismatch m.name.toList m.arity tokens.length) ∨
      ∃ token ∈ tokens, Operand.classify token = .error fault := by
  unfold Statement.ofTokens at h
  split at h
  next m _ =>
    rcases bind_eq_error_iff.mp h with h | ⟨_, -, h⟩
    · exact .inr (.inl ⟨m, (fault_of_checkArity h).2⟩)
    · rcases bind_eq_error_iff.mp h with h | ⟨_, -, h⟩
      · obtain ⟨pre, token, post, rfl, -, htoken⟩ := mapM_eq_error_iff.mp h
        exact .inr (.inr ⟨token, by simp, htoken⟩)
      · cases h
  next => exact .inl (Except.error.inj h).symm

/-- A line that does not split into tokens has a fault of its form, whatever is wrong. -/
theorem Line.fault_of_tokens {text : Text} {fault : Fault}
    (h : Line.tokens text = .error fault) : fault = .malformed (Line.expectation text) := by
  unfold Line.tokens at h
  split at h
  · cases h
  · exact (Except.error.inj h).symm

/-! ## Lines without code -/

/-- Whether a fault can be seen in a line without the program around it. -/
def Fault.isOfLine : Fault → Bool
  | romOverflow _ => false
  | invalidOpcode _ _ => false
  | _ => true

theorem Operand.isOfLine_of_classify {token : Text} {fault : Fault}
    (h : Operand.classify token = .error fault) : fault.isOfLine = true := by
  rcases Operand.fault_of_classify h with rfl | ⟨_, _, rfl⟩ <;> rfl

theorem Statement.isOfLine_of_ofTokens {name : Text} {tokens : List Text} {fault : Fault}
    (h : Statement.ofTokens name tokens = .error fault) : fault.isOfLine = true := by
  rcases Statement.fault_of_ofTokens h with rfl | ⟨_, rfl⟩ | ⟨_, -, h⟩
  · rfl
  · rfl
  · exact Operand.isOfLine_of_classify h

theorem Statement.isOfLine_of_code {s : Statement} {fault : Fault}
    (h : s.code = .error fault) : fault.isOfLine = true := by
  rcases Statement.fault_cases h with ⟨_, rfl⟩ | rfl | ⟨_, rfl⟩ | ⟨_, rfl⟩ <;> rfl

/-- The fault of a line is never one of a whole program. -/
theorem Line.isOfLine_of_code {text : Text} {fault : Fault} (h : Line.code text = .error fault) :
    fault.isOfLine = true := by
  rw [Line.code, bind_eq_error_iff] at h
  rcases h with h | ⟨tokens, -, h⟩
  · rw [Line.fault_of_tokens h]
    rfl
  · cases tokens with
    | nil => cases h
    | cons name operands =>
      rcases bind_eq_error_iff.mp h with h | ⟨s, -, h⟩
      · exact Statement.isOfLine_of_ofTokens h
      · exact Statement.isOfLine_of_code h

end TwinRom
