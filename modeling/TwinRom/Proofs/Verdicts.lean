import Mathlib.Data.Nat.Find
import Mathlib.Logic.ExistsUnique
import TwinRom.Proofs.Lookups
import TwinRom.Proofs.Runs

/-!
# Verdicts on lines

What becomes of one more line is settled by a row of rules, of which the first that applies
decides (`yields_iff_first_verdict`). `Verdict` states each rule on its own, without the rules
before it: what it looks for in the line, and whether the line is then rejected or adds code.

The operands that an instruction takes are listed in `Takes`, shape by shape. They are those that
have an encoding (`takes_iff_encodes`).

No rule speaks of an input that is missing. The encoder has several exits for it: where an operand
is put in its place, where the places are looked through, and where a load is looked up by number
(`Line.codeByLookup`). None of them is taken for any line.
-/

namespace TwinRom

/-! ## Names -/

/-- No two instructions share a name. -/
theorem Mnemonic.find?_name : ∀ m : Mnemonic,
    all.find? (fun m' => m'.name.toList == m.name.toList) = some m
  | nop | zor | str | stra | lrg | sor | smo | sao | jmp | jmpr => by decide
  | alu f => by cases f <;> decide

/-- An instruction is named in any case, with or without blanks around. -/
theorem Mnemonic.ofText?_eq_some_iff {t : Text} {m : Mnemonic} :
    ofText? t = some m ↔ Text.lower (Text.trim t) = m.name.toList := by
  constructor
  · intro h
    have hname := List.find?_some h
    exact (beq_iff_eq.mp hname).symm
  · intro h
    rw [ofText?, h]
    exact m.find?_name

/-- A text that is the name of no instruction is not found. -/
theorem Mnemonic.ofText?_eq_none_iff {t : Text} :
    ofText? t = none ↔ ∀ m : Mnemonic, Text.lower (Text.trim t) ≠ m.name.toList := by
  simp only [Option.eq_none_iff_forall_ne_some, ne_eq, ofText?_eq_some_iff]

/-! ## Shapes -/

/-- What the ALU can take as the input that it reads in the register `r`. -/
inductive IsInput (r : UInt8) : Operand → Prop where
  | immediate (value : UInt8) : IsInput r (.immediate value)
  | address (cell : UInt8) : IsInput r (.address cell)
  | register : IsInput r (.register r)

/-- The operands that an instruction takes. -/
inductive Takes : Mnemonic → List Operand → Prop where
  | nop : Takes .nop []
  | zor : Takes .zor []
  | smo : Takes .smo []
  | sao : Takes .sao []
  | jmpr : Takes .jmpr []
  | stra (value : UInt8) : Takes .stra [.immediate value]
  | str (value cell : UInt8) : Takes .str [.immediate value, .immediate cell]
  | jmp (target : UInt8) : Takes .jmp [.immediate target]
  | jmpR0 : Takes .jmp [.register 0]
  | sor {r : UInt8} (h : r ∈ [1, 2, 3, 5, 6, 7]) : Takes .sor [.register r]
  | lrg {r : UInt8} (h : r ∈ [5, 6, 7]) (value : UInt8) :
      Takes .lrg [.register r, .immediate value]
  | unary {f : AluFunction} {a : Operand} (hf : f.isUnary = true) (ha : IsInput 6 a) :
      Takes (.alu f) [a]
  | binary {f : AluFunction} {a b : Operand} (hf : f.isUnary = false) (ha : IsInput 6 a)
      (hb : IsInput 7 b) : Takes (.alu f) [a, b]

/-- Only a register depends on which input it is given to. -/
theorem fitsInput_iff {i : Nat} {r : UInt8} (hi : AluFunction.inputs[i]? = some r) {o : Operand} :
    fitsInput o i = true ↔ IsInput r o := by
  cases o with
  | register n =>
    rw [fitsInput, hi, beq_iff_eq, Option.some.injEq]
    constructor
    · rintro rfl
      exact .register
    · intro h
      cases h
      rfl
  | address cell => exact ⟨fun _ => .address cell, fun _ => rfl⟩
  | immediate value => exact ⟨fun _ => .immediate value, fun _ => rfl⟩

theorem Encodes.takes {m : Mnemonic} {operands : List Operand} {cells : List Cell}
    (h : Encodes m operands cells) : Takes m operands := by
  cases h with
  | nop => exact .nop
  | zor => exact .zor
  | smo => exact .smo
  | sao => exact .sao
  | jmpr => exact .jmpr
  | stra value => exact .stra value
  | str value cell => exact .str value cell
  | jmp target => exact .jmp target
  | jmpR0 => exact .jmpR0
  | sor h => exact .sor (List.mem_map_of_mem (f := Prod.fst) h)
  | lrg h value => exact .lrg (List.mem_map_of_mem (f := Prod.fst) h) value
  | unary hf ha => exact .unary hf ((fitsInput_iff rfl).mp ha)
  | binary hf ha hb => exact .binary hf ((fitsInput_iff rfl).mp ha) ((fitsInput_iff rfl).mp hb)

theorem Takes.exists_encodes {m : Mnemonic} {operands : List Operand} (h : Takes m operands) :
    ∃ cells, Encodes m operands cells := by
  cases h with
  | nop => exact ⟨_, .nop⟩
  | zor => exact ⟨_, .zor⟩
  | smo => exact ⟨_, .smo⟩
  | sao => exact ⟨_, .sao⟩
  | jmpr => exact ⟨_, .jmpr⟩
  | stra value => exact ⟨_, .stra value⟩
  | str value cell => exact ⟨_, .str value cell⟩
  | jmp target => exact ⟨_, .jmp target⟩
  | jmpR0 => exact ⟨_, .jmpR0⟩
  | @sor r h =>
    have hmem : r ∈ storeOpcodes.map Prod.fst := h
    obtain ⟨_, hop, rfl⟩ := List.mem_map.mp hmem
    exact ⟨_, .sor hop⟩
  | @lrg r h value =>
    have hmem : r ∈ loadOpcodes.map Prod.fst := h
    obtain ⟨_, hop, rfl⟩ := List.mem_map.mp hmem
    exact ⟨_, .lrg hop value⟩
  | unary hf ha => exact ⟨_, .unary hf ((fitsInput_iff rfl).mpr ha)⟩
  | binary hf ha hb =>
    exact ⟨_, .binary hf ((fitsInput_iff rfl).mpr ha) ((fitsInput_iff rfl).mpr hb)⟩

/-- An instruction takes the operands that it can be encoded with. -/
theorem takes_iff_encodes {m : Mnemonic} {operands : List Operand} :
    Takes m operands ↔ ∃ cells, Encodes m operands cells :=
  ⟨Takes.exists_encodes, fun ⟨_, h⟩ => h.takes⟩

/-! ## Faults of statements -/

/-- With the right number of operands, only a RAM cell can lack its place. -/
theorem Statement.fault_of_slots {s : Statement} {fault : Fault}
    (harity : s.mnemonic.arity = s.operands.length) (h : s.slots = .error fault) :
    s.mnemonic.isAlu = false ∧ (∃ o ∈ s.operands, o.kind = .address) ∧
      fault = .addressNotSupported s.mnemonic.name.toList := by
  obtain ⟨pre, ⟨o, i⟩, post, hsplit, -, hmake⟩ := mapM_eq_error_iff.mp h
  have hmem : (o, i) ∈ s.operands.zipIdx := by simp [hsplit]
  have hget := List.mem_zipIdx_iff_getElem?.mp hmem
  have hi : i < s.mnemonic.arity := harity ▸ (List.getElem?_eq_some_iff.mp hget).1
  rcases Slot.fault_of_make hmake with ⟨hge, -⟩ | ⟨halu, hkind, hfault⟩
  · exact absurd hi hge
  · exact ⟨halu, ⟨o, List.mem_of_getElem? hget, hkind⟩, hfault⟩

/-- What can be wrong with a statement that has the right number of operands. -/
theorem Statement.fault_of_code {s : Statement} {fault : Fault}
    (harity : s.mnemonic.arity = s.operands.length) (h : s.code = .error fault) :
    (s.mnemonic.isAlu = false ∧ (∃ o ∈ s.operands, o.kind = .address) ∧
        fault = .addressNotSupported s.mnemonic.name.toList) ∨
      (∀ o ∈ s.operands, o.kind = .address → s.mnemonic.isAlu = true) ∧
        fault = .unsupportedShape s.mnemonic.name.toList (Operand.shape s.operands) := by
  rw [Statement.code, bind_eq_error_iff] at h
  rcases h with h | ⟨slots, hs, h⟩
  · exact .inl (Statement.fault_of_slots harity h)
  · obtain ⟨-, haddress, rfl⟩ := Statement.slots_eq_ok_iff.mp hs
    have hplaces := misplaced?_slotsOf (harity ▸ s.mnemonic.arity_le_two)
    rcases fault_of_encode h with ⟨hne, -⟩ | ⟨_, hsome, -⟩ | ⟨-, hfault⟩
    · exact absurd (harity.trans (length_slotsOf _).symm) hne
    · rw [hplaces] at hsome
      cases hsome
    · rw [map_operand_slotsOf] at hfault
      exact .inr ⟨haddress, hfault⟩

/-- A RAM cell is reported before the shape is looked at. -/
theorem Statement.code_of_address {s : Statement} {cell : UInt8}
    (harity : s.mnemonic.arity = s.operands.length) (halu : s.mnemonic.isAlu = false)
    (hcell : .address cell ∈ s.operands) :
    s.code = .error (.addressNotSupported s.mnemonic.name.toList) := by
  cases hs : s.code with
  | ok code =>
    have hmust := (Statement.code_eq_ok_iff.mp hs).exists_variant.2.1 _ hcell rfl
    exact absurd (halu.symm.trans hmust) (by decide)
  | error fault =>
    rcases Statement.fault_of_code harity hs with ⟨-, -, rfl⟩ | ⟨hmust, -⟩
    · rfl
    · exact absurd (halu.symm.trans (hmust _ hcell rfl)) (by decide)

/-- The wrong shape is reported if no RAM cell is. -/
theorem Statement.code_of_not_takes {s : Statement}
    (harity : s.mnemonic.arity = s.operands.length) (hshape : ¬Takes s.mnemonic s.operands)
    (hcells : ∀ cell, .address cell ∈ s.operands → s.mnemonic.isAlu ≠ false) :
    s.code = .error (.unsupportedShape s.mnemonic.name.toList (Operand.shape s.operands)) := by
  cases hs : s.code with
  | ok code => exact absurd (takes_iff_encodes.mpr ⟨_, Statement.code_eq_ok_iff.mp hs⟩) hshape
  | error fault =>
    rcases Statement.fault_of_code harity hs with ⟨halu, ⟨o, ho, hkind⟩, -⟩ | ⟨-, rfl⟩
    · cases o with
      | address cell => exact absurd halu (hcells cell ho)
      | _ => cases hkind
    · rfl

/-! ## Rules -/

/-- The first token of a line names an instruction, and these are the tokens behind it. -/
def Line.Names (text : Text) (m : Mnemonic) (tokens : List Text) : Prop :=
  ∃ name, Line.tokens text = .ok (name :: tokens) ∧
    Text.lower (Text.trim name) = m.name.toList

/-- A line names an instruction, and all tokens behind the name are operands. -/
def Line.Holds (text : Text) (s : Statement) : Prop :=
  ∃ tokens, Line.Names text s.mnemonic tokens ∧
    tokens.map Operand.classify = s.operands.map .ok

/-- The rules for one more line, numbered in the order in which they are tried. A line that is
accepted gives the code of the program with the line. -/
inductive Verdict (p : Program) (text : Text) : Nat → Except Fault Fragment → Prop where
  /-- The line does not split into tokens. -/
  | malformed {expected : String} (h : Line.tokens text = .error (.malformed expected)) :
      Verdict p text 0 (.error (.malformed expected))
  /-- The line has no tokens. -/
  | blank (h : Line.tokens text = .ok []) : Verdict p text 1 (.ok p.code)
  /-- The first token is the name of no instruction. -/
  | unknown {name : Text} {tokens : List Text} (h : Line.tokens text = .ok (name :: tokens))
      (hname : ∀ m : Mnemonic, Text.lower (Text.trim name) ≠ m.name.toList) :
      Verdict p text 2 (.error (.unknownInstruction name))
  /-- The instruction takes another number of operands. -/
  | arity {m : Mnemonic} {tokens : List Text} (h : Line.Names text m tokens)
      (harity : m.arity ≠ tokens.length) :
      Verdict p text 3 (.error (.arityMismatch m.name.toList m.arity tokens.length))
  /-- A token is no operand, and it is the leftmost such token. -/
  | operand {m : Mnemonic} {pre post : List Text} {token : Text} {fault : Fault}
      (h : Line.Names text m (pre ++ token :: post))
      (hpre : ∀ t ∈ pre, ∃ o, Operand.classify t = .ok o)
      (htoken : Operand.classify token = .error fault) : Verdict p text 4 (.error fault)
  /-- An instruction that does not set up the ALU is given a RAM cell. -/
  | address {s : Statement} {cell : UInt8} (h : Line.Holds text s)
      (halu : s.mnemonic.isAlu = false) (hcell : .address cell ∈ s.operands) :
      Verdict p text 5 (.error (.addressNotSupported s.mnemonic.name.toList))
  /-- The instruction does not take the operands. -/
  | shape {s : Statement} (h : Line.Holds text s) (hshape : ¬Takes s.mnemonic s.operands) :
      Verdict p text 6
        (.error (.unsupportedShape s.mnemonic.name.toList (Operand.shape s.operands)))
  /-- The ROM has no room for the code of the line. -/
  | overflow {s : Statement} {code : Fragment} (h : Line.Holds text s)
      (hcode : Encodes s.mnemonic s.operands code.cells)
      (hover : romSize < p.code.length + code.length) :
      Verdict p text 7 (.error (.romOverflow (p.code.length + code.length)))
  /-- The line has code. -/
  | accepted {s : Statement} {code : Fragment} (h : Line.Holds text s)
      (hcode : Encodes s.mnemonic s.operands code.cells) : Verdict p text 8 (.ok (p.code ++ code))

variable {p : Program} {text : Text} {m : Mnemonic} {tokens : List Text} {s : Statement} {k : Nat}
  {r : Except Fault Fragment}

theorem Line.code_of_tokens {name : Text} (h : Line.tokens text = .ok (name :: tokens)) :
    Line.code text = Statement.ofTokens name tokens >>= Statement.code := by
  rw [Line.code, h]
  rfl

/-- Once the instruction is known, operands are counted before they are read. -/
theorem Line.Names.code_eq (h : Line.Names text m tokens) : Line.code text = (do
    checkArity m tokens.length
    let operands ← tokens.mapM Operand.classify
    (⟨m, operands⟩ : Statement).code) := by
  obtain ⟨name, ht, hname⟩ := h
  rw [Line.code_of_tokens ht, Statement.ofTokens, Mnemonic.ofText?_eq_some_iff.mpr hname]
  dsimp only
  cases checkArity m tokens.length with
  | error fault => rfl
  | ok _ => cases tokens.mapM Operand.classify <;> rfl

/-- Behind the rule about their number, the number of operands is right. -/
theorem Line.Names.arity_eq (h : Line.Names text m tokens) (hfirst : ∀ r, ¬Verdict p text 3 r) :
    m.arity = tokens.length := by
  by_contra hne
  exact hfirst _ (.arity h hne)

/-- A line with the right number of operands has the code of its statement, or the fault. -/
theorem Line.Holds.code_eq (h : Line.Holds text s) (hfirst : ∀ r, ¬Verdict p text 3 r) :
    s.mnemonic.arity = s.operands.length ∧ Line.code text = s.code := by
  obtain ⟨tokens, hnames, hoperands⟩ := h
  have hlen : tokens.length = s.operands.length := by simpa using congrArg List.length hoperands
  have harity : s.mnemonic.arity = tokens.length := hnames.arity_eq hfirst
  refine ⟨harity.trans hlen, ?_⟩
  rw [hnames.code_eq, checkArity, if_pos harity, mapM_eq_ok_iff.mpr hoperands]
  rfl

theorem Program.codeWith_of_fault {fault : Fault} (h : Line.code text = .error fault) :
    p.codeWith text = .error fault :=
  codeWith_eq_error_iff.mpr (.inl h)

/-- A rule decides if no rule before it applies. -/
theorem Verdict.codeWith_eq (hp : p.Sound) (h : Verdict p text k r)
    (hfirst : ∀ j < k, ∀ r', ¬Verdict p text j r') : p.codeWith text = r := by
  -- only the rules of the arity, the RAM cells and the room are needed from `hfirst`: the others
  -- exclude each other by their premises
  cases h with
  | malformed h =>
    refine Program.codeWith_of_fault ?_
    rw [Line.code, h]
    rfl
  | blank h =>
    have hline := Line.code_eq_ok_iff.mpr (.inl ⟨h, rfl⟩)
    exact Program.codeWith_eq_ok_iff.mpr
      ⟨.empty, hline, hp.fits, (Fragment.append_empty p.code).symm⟩
  | unknown h hname =>
    refine Program.codeWith_of_fault ?_
    rw [Line.code_of_tokens h, Statement.ofTokens, Mnemonic.ofText?_eq_none_iff.mpr hname]
    rfl
  | arity h harity =>
    refine Program.codeWith_of_fault ?_
    rw [h.code_eq, checkArity, if_neg harity]
    rfl
  | operand h hpre htoken =>
    refine Program.codeWith_of_fault ?_
    rw [h.code_eq, checkArity, if_pos (h.arity_eq (hfirst 3 (by decide))),
      mapM_eq_error_iff.mpr ⟨_, _, _, rfl, hpre, htoken⟩]
    rfl
  | address h halu hcell =>
    obtain ⟨harity, hline⟩ := h.code_eq (hfirst 3 (by decide))
    exact Program.codeWith_of_fault (hline.trans (Statement.code_of_address harity halu hcell))
  | shape h hshape =>
    obtain ⟨harity, hline⟩ := h.code_eq (hfirst 3 (by decide))
    refine Program.codeWith_of_fault (hline.trans (Statement.code_of_not_takes harity hshape ?_))
    exact fun cell hcell halu => hfirst 5 (by decide) _ (.address h halu hcell)
  | overflow h hcode hover =>
    obtain ⟨-, hline⟩ := h.code_eq (hfirst 3 (by decide))
    rw [Statement.code_eq_ok_iff.mpr hcode] at hline
    exact Program.codeWith_eq_error_iff.mpr (.inr ⟨_, hline, hover, rfl⟩)
  | accepted h hcode =>
    obtain ⟨-, hline⟩ := h.code_eq (hfirst 3 (by decide))
    rw [Statement.code_eq_ok_iff.mpr hcode] at hline
    refine Program.codeWith_eq_ok_iff.mpr ⟨_, hline, ?_, rfl⟩
    by_contra hover
    exact hfirst 7 (by decide) _ (.overflow h hcode (Nat.lt_of_not_le hover))

/-- Some rule applies to every line. -/
theorem exists_verdict (p : Program) (text : Text) : ∃ k r, Verdict p text k r := by
  cases ht : Line.tokens text with
  | error fault =>
    obtain rfl := Line.fault_of_tokens ht
    exact ⟨0, _, .malformed ht⟩
  | ok tokens =>
    cases tokens with
    | nil => exact ⟨1, _, .blank ht⟩
    | cons name tokens =>
      cases hm : Mnemonic.ofText? name with
      | none => exact ⟨2, _, .unknown ht (Mnemonic.ofText?_eq_none_iff.mp hm)⟩
      | some m =>
        have hnames : Line.Names text m tokens :=
          ⟨name, ht, Mnemonic.ofText?_eq_some_iff.mp hm⟩
        cases hoperands : tokens.mapM Operand.classify with
        | error fault =>
          obtain ⟨pre, token, post, rfl, hpre, htoken⟩ := mapM_eq_error_iff.mp hoperands
          exact ⟨4, _, .operand hnames hpre htoken⟩
        | ok operands =>
          have hholds : Line.Holds text ⟨m, operands⟩ :=
            ⟨tokens, hnames, mapM_eq_ok_iff.mp hoperands⟩
          by_cases hshape : Takes m operands
          · obtain ⟨cells, hcells⟩ := takes_iff_encodes.mp hshape
            rw [← Fragment.cells_ofCells cells] at hcells
            exact ⟨8, _, .accepted hholds hcells⟩
          · exact ⟨6, _, .shape hholds hshape⟩

/-- No rule speaks of a missing ALU input. -/
theorem Verdict.ne_invalidSlot (index : Nat) : ¬Verdict p text k (.error (.invalidSlot index)) := by
  intro h
  cases h with
  | operand _ _ htoken =>
    rcases Operand.fault_of_classify htoken with h | ⟨_, _, h⟩ <;> cases h

/-- What one more line does to a program: it leaves it with the given code, or it is rejected and
adds nothing. Either way it is counted. -/
def Program.Yields (p : Program) (text : Text) : Except Fault Fragment → Prop
  | .ok code => p.error? text = none ∧ p.read text = ⟨p.lines + 1, code⟩
  | .error fault => p.error? text = some ⟨some (p.lines + 1), fault⟩ ∧
      p.read text = ⟨p.lines + 1, p.code⟩

/-- What one more line does can be told from the code of the program with the line. -/
theorem Program.yields_iff : p.Yields text r ↔ p.codeWith text = r := by
  cases hcode : p.codeWith text with
  | ok code =>
    cases r <;> simp [Yields, error?_of_codeWith_eq_ok hcode, read_of_codeWith_eq_ok hcode]
  | error fault =>
    cases r <;> simp [Yields, error?_of_codeWith_eq_error hcode, read_of_codeWith_eq_error hcode]

/-- What becomes of one more line is decided by the first rule that applies, whatever lines were
read before. No line is rejected for want of an ALU input, and the encoder does not come to the
places where it would be, also if it looks its tables up by number. -/
theorem yields_iff_first_verdict (texts : List Text) (text : Text) :
    let p := Program.empty.readThrough texts
    (∃! r, p.Yields text r) ∧
      (∀ r, p.Yields text r ↔
        ∃ k, Verdict p text k r ∧ ∀ j < k, ∀ r', ¬Verdict p text j r') ∧
      (∀ line index, p.error? text ≠ some ⟨line, .invalidSlot index⟩) ∧
      Line.codeByLookup text = (Line.code text).mapError .fault ∧
      ∀ index, Line.codeByLookup text ≠ .error (.fault (.invalidSlot index)) := by
  intro p
  have hp : p.Sound := Program.Sound.empty.readThrough texts
  have hfirst : ∀ r, p.Yields text r ↔
      ∃ k, Verdict p text k r ∧ ∀ j < k, ∀ r', ¬Verdict p text j r' := by
    intro r
    rw [Program.yields_iff]
    constructor
    · rintro rfl
      classical
      -- the first rule is the one with the least number
      obtain ⟨k, ⟨r, hr⟩, hmin⟩ := Nat.findX (exists_verdict p text)
      have hfirst : ∀ j < k, ∀ r', ¬Verdict p text j r' := fun j hj r' h => hmin j hj ⟨r', h⟩
      exact ⟨k, hr.codeWith_eq hp hfirst ▸ hr, hfirst⟩
    · rintro ⟨k, hr, hfirst⟩
      exact hr.codeWith_eq hp hfirst
  have hslot : ∀ index, p.codeWith text ≠ .error (.invalidSlot index) := by
    intro index hcode
    obtain ⟨k, hk, -⟩ := (hfirst _).mp (Program.yields_iff.mpr hcode)
    exact hk.ne_invalidSlot index
  refine ⟨⟨p.codeWith text, ?_, ?_⟩, hfirst, fun line index h => ?_, Line.codeByLookup_eq text,
    fun index h => ?_⟩
  · exact Program.yields_iff.mpr rfl
  · exact fun r hr => (Program.yields_iff.mp hr).symm
  · exact hslot index (Program.error?_eq_some_iff.mp h).1
  · rw [Line.codeByLookup_eq, mapError_eq_error_iff] at h
    obtain ⟨fault, hcode, hfault⟩ := h
    obtain rfl := Stop.fault.inj hfault
    exact hslot index (Program.codeWith_of_fault hcode)

end TwinRom
