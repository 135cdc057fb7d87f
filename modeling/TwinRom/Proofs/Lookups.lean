import Mathlib.Logic.Basic
import TwinRom.Proofs.Encoding

/-!
# Lookups of the encoder

`encode` reads its tables at places that are known to exist, and works out again what a slot has to
fetch. `encodeByLookup` is the same encoder without that knowledge. It looks up an opcode row, an
opcode and a data byte by number, and stops where a table has no such entry (`Stop.outside`). Its
slots (`PreparedSlot`) keep the code that was made to fetch their operand, whatever instruction they
were made for.

No lookup goes outside its table (`encodeByLookup_prepared`), because the row and the slots that
pass the checks before it fit the instruction. The code that a slot keeps depends on its place and
its operand only (`PreparedSlot.make_eq`). So a line is encoded alike with lookups and without
(`Line.codeByLookup_eq`). What is left of the encoder is its verdict (`encode_judged`), and all of
it together holds for any slots that can be made (`encodeByLookup_of_requests`).
-/

namespace TwinRom

/-! ## Slots that keep their code -/

/-- An operand in its place, with the code that was made to fetch it. -/
structure PreparedSlot where
  /-- The place, counted from zero. -/
  index : Nat
  /-- The operand. -/
  operand : Operand
  /-- The code that goes before the instruction, for an operand that needs some. -/
  preamble : Option Fragment
  deriving DecidableEq

/-- A slot with its code. -/
def Slot.prepared (s : Slot) : PreparedSlot := ⟨s.index, s.operand, s.preamble?⟩

namespace PreparedSlot

/-- Puts an operand of `m` in its place. -/
def make (m : Mnemonic) (index : Nat) (operand : Operand) : Except Fault PreparedSlot :=
  if m.arity ≤ index ∨ AluFunction.inputs.length ≤ index then .error (.invalidSlot index)
  else
    match operand with
    | .address cell => (fetchFor m cell index).map fun code => ⟨index, operand, some code⟩
    | _ => .ok ⟨index, operand, none⟩

/-- The cells that go before the instruction. -/
def fetched (s : PreparedSlot) : List Cell := s.preamble.elim [] Fragment.cells

/-- Whether the operand is in its register before the instruction loads anything. -/
def isPreloaded (s : PreparedSlot) : Bool :=
  match s.operand with
  | .address _ => true
  | .register r => AluFunction.inputs[s.index]? == some r
  | .immediate _ => false

/-- The code in a slot is made from the cell and the place, not from the instruction. -/
theorem make_eq (m : Mnemonic) (index : Nat) (operand : Operand) :
    make m index operand = (Slot.make m index operand).map Slot.prepared := by
  have hinputs : AluFunction.inputs.length = 2 := rfl
  unfold make Slot.make
  by_cases h : index < m.arity ∧ index < 2
  · rw [dif_pos h, if_neg (by omega)]
    cases operand with
    | address cell =>
      unfold fetchFor
      cases m.isAlu with
      | false => rfl
      | true =>
        simp only [↓reduceIte, dif_pos h.2]
        rfl
    | _ => rfl
  · rw [dif_neg h, if_pos (by omega)]
    rfl

end PreparedSlot

/-! ## Slots on request -/

/-- A slot to be made: an operand, its place, and the instruction that it is made for. -/
structure SlotRequest where
  /-- The instruction. -/
  mnemonic : Mnemonic
  /-- The place, counted from zero. -/
  index : Nat
  /-- The operand. -/
  operand : Operand
  deriving DecidableEq

namespace SlotRequest

/-- Makes the slot. -/
def slot (r : SlotRequest) : Except Fault Slot := Slot.make r.mnemonic r.index r.operand

/-- Makes the slot with its code. -/
def prepare (r : SlotRequest) : Except Fault PreparedSlot :=
  PreparedSlot.make r.mnemonic r.index r.operand

/-- What is requested but for the instruction. -/
def place (r : SlotRequest) : Nat × Operand := (r.index, r.operand)

theorem eq_slotAt_of_slot {r : SlotRequest} {s : Slot} (h : r.slot = .ok s) :
    s = slotAt r.place :=
  Slot.eq_of_make h

theorem slot_of_prepare {r : SlotRequest} {s : PreparedSlot} (h : r.prepare = .ok s) :
    r.slot = .ok (slotAt r.place) ∧ s = (slotAt r.place).prepared := by
  rw [prepare, PreparedSlot.make_eq] at h
  obtain ⟨t, ht, rfl⟩ := map_eq_ok_iff.mp h
  obtain rfl : t = slotAt r.place := eq_slotAt_of_slot ht
  exact ⟨ht, rfl⟩

/-- What is made depends on the places and the operands only. -/
theorem mapM_prepare {requests : List SlotRequest} {slots : List PreparedSlot}
    (h : requests.mapM prepare = .ok slots) :
    requests.mapM slot = .ok ((requests.map place).map slotAt) ∧
      slots = ((requests.map place).map slotAt).map Slot.prepared := by
  obtain ⟨hall, rfl⟩ := (mapM_eq_ok_iff_of_unique fun _ _ hs => (slot_of_prepare hs).2).mp h
  have hslots : ∀ r ∈ requests, r.slot = .ok (slotAt r.place) := fun r hr =>
    (slot_of_prepare (hall r hr)).1
  simp only [List.map_map]
  exact ⟨(mapM_eq_ok_iff_of_unique fun _ _ => eq_slotAt_of_slot).mpr ⟨hslots, rfl⟩, rfl⟩

end SlotRequest

/-! ## The encoder -/

/-- What stops an encoder that looks its tables up by number. -/
inductive Stop where
  /-- The slots are at fault. -/
  | fault (fault : Fault)
  /-- A table has no entry with the number. -/
  | outside
  deriving DecidableEq

/-- The entry of a table with a number. -/
def lookUp {α : Type} (table : List α) (i : Nat) : Except Stop α :=
  match table[i]? with
  | some a => .ok a
  | none => .error .outside

/-- The cell that loads a slot, if there is something to load. -/
def PreparedSlot.load (row : List UInt8) (s : PreparedSlot) : Except Stop (List Cell) :=
  match s.operand with
  | .immediate value =>
    match row[1 + s.index]? with
    | some op => .ok [⟨op, value⟩]
    | none => .error (.fault (.invalidSlot s.index))
  | _ => .ok []

/-- The cells of `m` with the opcode row number `v`. -/
def cellsByLookup (m : Mnemonic) (v : Nat) (slots : List PreparedSlot) :
    Except Stop (List Cell) := do
  let row ← lookUp m.variants v
  if m.isAlu then
    let select ← lookUp row 0
    let selector ← lookUp m.template 0
    let loads ← (slots.filter fun s => !s.isPreloaded).mapM (PreparedSlot.load row)
    .ok (slots.flatMap PreparedSlot.fetched ++ ⟨select, selector⟩ :: loads.flatten)
  else
    let data := m.template ++ slots.filterMap fun s => s.operand.immediate?
    .ok ((row.zip (data.rightpad row.length 0)).map fun p => ⟨p.1, p.2⟩)

/-- The first slot that is not in the place it is made for. -/
def PreparedSlot.misplaced? (slots : List PreparedSlot) : Option PreparedSlot :=
  (slots.zipIdx.find? fun p => p.1.index != p.2).map Prod.fst

/-- The code of `m` with the given slots, every table being looked up by number. -/
def encodeByLookup (m : Mnemonic) (slots : List PreparedSlot) : Except Stop Fragment := do
  (checkArity m slots.length).mapError .fault
  match PreparedSlot.misplaced? slots with
  | some slot => .error (.fault (.invalidSlot slot.index))
  | none =>
    match variant? m (slots.map PreparedSlot.operand) with
    | some v => do .ok (.ofCells (← cellsByLookup m v slots))
    | none =>
      let shape := Operand.shape (slots.map PreparedSlot.operand)
      .error (.fault (.unsupportedShape m.name.toList shape))

/-! ## Places -/

/-- All slots are in the places that they are made for. -/
def InPlace (slots : List Slot) : Prop :=
  ∀ (k : Nat) (s : Slot), slots[k]? = some s → s.index.val = k

theorem forall_mem_zipIdx_iff {slots : List Slot} :
    (∀ p ∈ slots.zipIdx, p.1.index.val = p.2) ↔ InPlace slots := by
  simp only [Prod.forall, List.mem_zipIdx_iff_getElem?, InPlace]
  exact forall_comm

/-- No slot is misplaced exactly if every slot has the index of its position. -/
theorem misplaced?_eq_none_iff {slots : List Slot} : misplaced? slots = none ↔ InPlace slots := by
  rw [misplaced?, Option.map_eq_none_iff, List.find?_eq_none, ← forall_mem_zipIdx_iff]
  simp only [bne_iff_ne, ne_eq, not_not]

/-- The slot that is found is the first that is not in its place. -/
theorem misplaced?_eq_some_iff {slots : List Slot} {s : Slot} :
    misplaced? slots = some s ↔
      ∃ pre post, slots = pre ++ s :: post ∧ InPlace pre ∧ s.index.val ≠ pre.length := by
  simp only [misplaced?, Option.map_eq_some_iff, List.find?_eq_some_iff_append,
    Bool.not_eq_true', bne_eq_false_iff_eq, bne_iff_ne]
  constructor
  · rintro ⟨⟨_, k⟩, ⟨hne, front, back, hsplit, hfront⟩, rfl⟩
    obtain ⟨pre, rest, rfl, rfl, hrest⟩ := List.zipIdx_eq_append_iff.mp hsplit
    obtain ⟨s, post, rfl, hs, -⟩ := List.zipIdx_eq_cons_iff.mp hrest.symm
    obtain ⟨rfl, rfl⟩ := Prod.mk.inj hs
    exact ⟨pre, post, rfl, forall_mem_zipIdx_iff.mp hfront, by simpa using hne⟩
  · rintro ⟨pre, post, rfl, hpre, hne⟩
    have hsplit : (pre ++ s :: post).zipIdx =
        pre.zipIdx ++ (s, pre.length) :: post.zipIdx (pre.length + 1) := by
      simp [List.zipIdx_append]
    exact ⟨(s, pre.length), ⟨hne, _, _, hsplit, forall_mem_zipIdx_iff.mpr hpre⟩, rfl⟩

/-- Slots in place are made of their operands in order. -/
theorem InPlace.exists_operands {slots : List Slot} (h : InPlace slots) :
    ∃ operands, slots = slotsOf operands := by
  refine ⟨slots.map Slot.operand, List.ext_getElem (by simp) fun k hk _ => ?_⟩
  have hindex : slots[k].index.val = k := h k _ (List.getElem?_eq_getElem hk)
  have hlt : slots[k].index.val < 2 := slots[k].index.isLt
  have hofNat : Fin.ofNat 2 k = slots[k].index := by
    refine Fin.ext ?_
    rw [hindex] at hlt ⊢
    exact Nat.mod_eq_of_lt hlt
  simp only [slotsOf, List.getElem_map, List.getElem_zipIdx, Nat.zero_add, hofNat]

/-! ## Lookups find their entries -/

theorem lookUp_of_getElem? {α : Type} {table : List α} {i : Nat} {a : α}
    (h : table[i]? = some a) : lookUp table i = .ok a := by
  rw [lookUp, h]

theorem Slot.fetched_prepared (s : Slot) : s.prepared.fetched = s.fetched := by
  obtain ⟨i, o⟩ := s
  cases o with
  | address cell => exact Fragment.cells_ofCells _
  | _ => rfl

/-- Whether a slot is misplaced does not depend on the code in it. -/
theorem misplaced?_prepared (slots : List Slot) :
    PreparedSlot.misplaced? (slots.map Slot.prepared) = (misplaced? slots).map Slot.prepared := by
  rw [PreparedSlot.misplaced?, misplaced?, List.zipIdx_map, List.find?_map, Option.map_map,
    Option.map_map]
  rfl

/-- Instructions that do not use the ALU look up one opcode for each cell. -/
theorem cellsByLookup_of_not_alu {m : Mnemonic} (hm : m.isAlu = false) {v : Nat}
    (hlt : v < m.variants.length) (slots : List Slot) :
    cellsByLookup m v (slots.map Slot.prepared) = .ok (emit m (m.variants.get ⟨v, hlt⟩) slots) := by
  rw [cellsByLookup, lookUp_of_getElem? (List.getElem?_eq_getElem hlt), emit, hm,
    List.filterMap_map]
  rfl

/-- The only row of an ALU function selects it, and then loads the inputs that it looks at. -/
theorem exists_variants_alu (f : AluFunction) : ∃ row, (Mnemonic.alu f).variants = [row] ∧
    row[0]? = some Opcode.loadR5 ∧
      ∀ i : Fin 2, i.val < f.arity → row[1 + i.val]? = some (loadInput i) := by
  cases f <;> exact ⟨_, rfl, rfl, by decide⟩

/-- What remains to be loaded is what each slot loads, if the row has a load for each. -/
theorem mapM_load_prepared {row : List UInt8} : ∀ {slots : List Slot},
    (∀ s ∈ slots, row[1 + s.index.val]? = some (loadInput s.index)) →
    ∃ loads, ((slots.map Slot.prepared).filter fun s => !s.isPreloaded).mapM
      (PreparedSlot.load row) = .ok loads ∧ loads.flatten = slots.flatMap Slot.loaded
  | [], _ => ⟨[], rfl, rfl⟩
  | s :: slots, h => by
    obtain ⟨hs, hslots⟩ := List.forall_mem_cons.mp h
    obtain ⟨loads, hloads, hflat⟩ := mapM_load_prepared hslots
    rw [List.map_cons, List.filter_cons]
    have hload : s.prepared.load row = .ok s.loaded := by
      unfold PreparedSlot.load Slot.loaded
      obtain ⟨i, o⟩ := s
      cases o with
      | immediate value =>
        simp only [Slot.prepared]
        rw [hs]
      | _ => rfl
    split
    · refine ⟨s.loaded :: loads, ?_, by simp [hflat]⟩
      rw [List.mapM_cons, hload, hloads]
      rfl
    next hpre =>
      -- a slot that is left out loads nothing
      refine ⟨loads, hloads, ?_⟩
      obtain ⟨i, o⟩ := s
      cases o with
      | immediate value => exact absurd rfl hpre
      | _ => exact hflat

/-- An ALU function looks up the opcode that loads an input only for inputs it has. -/
theorem cellsByLookup_alu {f : AluFunction} {slots : List Slot}
    (h : ∀ s ∈ slots, s.index.val < f.arity) :
    cellsByLookup (.alu f) 0 (slots.map Slot.prepared) =
      .ok (slots.flatMap Slot.fetched ++
        ⟨Opcode.loadR5, f.selector⟩ :: slots.flatMap Slot.loaded) := by
  obtain ⟨row, hrow, hselect, hload⟩ := exists_variants_alu f
  obtain ⟨loads, hloads, hflat⟩ := mapM_load_prepared fun s hs => hload s.index (h s hs)
  have hfetched : (slots.map Slot.prepared).flatMap PreparedSlot.fetched =
      slots.flatMap Slot.fetched := by
    simp only [List.flatMap_map, Slot.fetched_prepared]
  refine bind_eq_ok_iff.mpr ⟨row, lookUp_of_getElem? (by rw [hrow]; rfl), ?_⟩
  rw [if_pos (show (Mnemonic.alu f).isAlu = true from rfl)]
  refine bind_eq_ok_iff.mpr ⟨_, lookUp_of_getElem? hselect, ?_⟩
  refine bind_eq_ok_iff.mpr ⟨f.selector, lookUp_of_getElem? rfl, ?_⟩
  refine bind_eq_ok_iff.mpr ⟨loads, hloads, ?_⟩
  rw [hfetched, hflat]

/-- The cells of an ALU function, however many inputs it looks at. -/
theorem emit_alu {f : AluFunction} : ∀ {operands : List Operand}, f.arity = operands.length →
    (hlt : 0 < (Mnemonic.alu f).variants.length) →
    emit (.alu f) ((Mnemonic.alu f).variants.get ⟨0, hlt⟩) (slotsOf operands) =
      (slotsOf operands).flatMap Slot.fetched ++
        ⟨Opcode.loadR5, f.selector⟩ :: (slotsOf operands).flatMap Slot.loaded
  | [], ha, _ => by cases f <;> cases ha
  | [a], ha, hlt => by
    refine (emit_unary (AluFunction.arity_eq_one_iff.mp ha) a hlt).trans ?_
    simp [slotsOf]
  | [a, b], ha, hlt => by
    refine (emit_binary (AluFunction.arity_eq_two_iff.mp ha) a b hlt).trans ?_
    simp [slotsOf]
  | _ :: _ :: _ :: _, ha, _ => by cases f <;> cases ha

/-- For slots in place, every lookup finds its cell. -/
theorem cellsByLookup_prepared {m : Mnemonic} {slots : List Slot} {v : Nat}
    (ha : m.arity = slots.length) (hs : InPlace slots)
    (hv : variant? m (slots.map Slot.operand) = some v) :
    cellsByLookup m v (slots.map Slot.prepared) =
      .ok (emit m (m.variants.get ⟨v, variant?_lt hv⟩) slots) := by
  cases hm : m.isAlu with
  | false => exact cellsByLookup_of_not_alu hm _ slots
  | true =>
    obtain ⟨f, rfl⟩ : ∃ f, m = .alu f := by
      cases m with
      | alu f => exact ⟨f, rfl⟩
      | _ => cases hm
    obtain rfl := (variant?_alu_eq_some_iff.mp hv).2
    have hindex : ∀ s ∈ slots, s.index.val < f.arity := by
      intro s hmem
      obtain ⟨k, hk⟩ := List.mem_iff_getElem?.mp hmem
      have hlt := (List.getElem?_eq_some_iff.mp hk).1
      have hval := hs k s hk
      have ha' : f.arity = slots.length := ha
      omega
    obtain ⟨operands, rfl⟩ := hs.exists_operands
    rw [length_slotsOf] at ha
    rw [cellsByLookup_alu hindex, emit_alu ha]

/-- Looking tables up by number is no different from reading them. -/
theorem encodeByLookup_prepared (m : Mnemonic) (slots : List Slot) :
    encodeByLookup m (slots.map Slot.prepared) = (encode m slots).mapError .fault := by
  have hoperands : (slots.map Slot.prepared).map PreparedSlot.operand = slots.map Slot.operand := by
    rw [List.map_map]
    rfl
  rw [encodeByLookup, List.length_map, checkArity, misplaced?_prepared, hoperands]
  by_cases ha : m.arity = slots.length
  · rw [if_pos ha]
    cases hs : misplaced? slots with
    | some s =>
      rw [encode_of_misplaced ha hs]
      rfl
    | none =>
      cases hv : variant? m (slots.map Slot.operand) with
      | some v =>
        rw [encode_of_variant ha hs hv]
        have hcells := cellsByLookup_prepared ha (misplaced?_eq_none_iff.mp hs) hv
        exact bind_eq_ok_iff.mpr ⟨(), rfl, bind_eq_ok_iff.mpr ⟨_, hcells, rfl⟩⟩
      | none =>
        rw [encode_of_no_variant ha hs hv]
        rfl
  · rw [if_neg ha, encode_of_arity_ne ha]
    rfl

/-! ## Lines -/

/-- The code of a statement, every table being looked up by number. -/
def Statement.codeByLookup (s : Statement) : Except Stop Fragment := do
  let slots ← (s.operands.zipIdx.mapM fun p =>
    PreparedSlot.make s.mnemonic p.2 p.1).mapError .fault
  encodeByLookup s.mnemonic slots

/-- The code of one line, every table being looked up by number. -/
def Line.codeByLookup (text : Text) : Except Stop Fragment := do
  match ← (Line.tokens text).mapError .fault with
  | [] => .ok .empty
  | name :: operands => (← (Statement.ofTokens name operands).mapError .fault).codeByLookup

/-- A statement is encoded the same way with lookups, and none of them fails. -/
theorem Statement.codeByLookup_eq (s : Statement) :
    s.codeByLookup = s.code.mapError .fault := by
  have hslots : (s.operands.zipIdx.mapM fun p => PreparedSlot.make s.mnemonic p.2 p.1) =
      s.slots.map (List.map Slot.prepared) := by
    simp only [PreparedSlot.make_eq]
    exact mapM_map Slot.prepared _
  rw [codeByLookup, hslots, code, bind_mapError]
  cases s.slots with
  | error fault => rfl
  | ok slots => exact encodeByLookup_prepared s.mnemonic slots

/-- No line makes the encoder look outside a table, and looking up changes nothing else. -/
theorem Line.codeByLookup_eq (text : Text) :
    Line.codeByLookup text = (Line.code text).mapError .fault := by
  rw [Line.codeByLookup, Line.code, bind_mapError]
  cases Line.tokens text with
  | error fault => rfl
  | ok tokens =>
    cases tokens with
    | nil => rfl
    | cons name operands =>
      change (Statement.ofTokens name operands).mapError .fault >>= Statement.codeByLookup =
        (Statement.ofTokens name operands >>= Statement.code).mapError .fault
      rw [bind_mapError, funext Statement.codeByLookup_eq]

/-! ## The verdict -/

/-- What encoding says: the number of operands is looked at first, then the places, and then what
the instruction can do with the operands. -/
structure Judged (m : Mnemonic) (slots : List Slot) (result : Except Fault Fragment) : Prop where
  /-- The number of slots is wrong. -/
  arity : m.arity ≠ slots.length →
    result = .error (.arityMismatch m.name.toList m.arity slots.length)
  /-- A slot is not in its place, and it is the first such slot. -/
  misplaced : m.arity = slots.length → ∀ index, result = .error (.invalidSlot index) ↔
    ∃ pre s post, slots = pre ++ s :: post ∧ InPlace pre ∧ s.index.val ≠ pre.length ∧
      s.index.val = index
  /-- All slots are in their places. -/
  placed : m.arity = slots.length → InPlace slots → (∃ code, result = .ok code) ∨
    result = .error (.unsupportedShape m.name.toList (Operand.shape (slots.map Slot.operand)))

/-- Slots in place leave one thing to go wrong, their shape. -/
theorem encode_of_inPlace {m : Mnemonic} {slots : List Slot} (ha : m.arity = slots.length)
    (hs : misplaced? slots = none) : (∃ code, encode m slots = .ok code) ∨
      encode m slots =
        .error (.unsupportedShape m.name.toList (Operand.shape (slots.map Slot.operand))) := by
  cases hv : variant? m (slots.map Slot.operand) with
  | some v => exact .inl ⟨_, encode_of_variant ha hs hv⟩
  | none => exact .inr (encode_of_no_variant ha hs hv)

/-- The encoder judges every list of slots, also those that no statement has. -/
theorem encode_judged (m : Mnemonic) (slots : List Slot) : Judged m slots (encode m slots) where
  arity := encode_of_arity_ne
  misplaced ha index := by
    cases hs : misplaced? slots with
    | some s =>
      obtain ⟨pre, post, hsplit, hpre, hne⟩ := misplaced?_eq_some_iff.mp hs
      rw [encode_of_misplaced ha hs, Except.error.injEq, Fault.invalidSlot.injEq]
      constructor
      · rintro rfl
        exact ⟨pre, s, post, hsplit, hpre, hne, rfl⟩
      · rintro ⟨pre', s', post', hsplit', hpre', hne', rfl⟩
        have hs' := misplaced?_eq_some_iff.mpr ⟨pre', post', hsplit', hpre', hne'⟩
        rw [Option.some.inj (hs.symm.trans hs')]
    | none =>
      refine iff_of_false (fun h => ?_) ?_
      · rcases encode_of_inPlace ha hs with ⟨code, hcode⟩ | hshape
        · cases h.symm.trans hcode
        · cases h.symm.trans hshape
      · rintro ⟨pre, s, post, hsplit, hpre, hne, -⟩
        have hs' := misplaced?_eq_some_iff.mpr ⟨pre, post, hsplit, hpre, hne⟩
        cases hs.symm.trans hs'
  placed ha hplace := encode_of_inPlace ha (misplaced?_eq_none_iff.mpr hplace)

/-- Any slots that can be made, for whatever instructions and in whatever order, are encoded without
a lookup outside a table, and with the same verdict as if they had been made for the instruction
itself: only their places and operands count. -/
theorem encodeByLookup_of_requests (m : Mnemonic) {requests : List SlotRequest}
    {slots : List PreparedSlot} (h : requests.mapM SlotRequest.prepare = .ok slots) :
    (∃ plain, requests.mapM SlotRequest.slot = .ok plain ∧
      encodeByLookup m slots = (encode m plain).mapError .fault ∧
      Judged m plain (encode m plain)) ∧
    ∀ (requests' : List SlotRequest) (slots' : List PreparedSlot),
      requests'.mapM SlotRequest.prepare = .ok slots' →
      requests'.map SlotRequest.place = requests.map SlotRequest.place →
      encodeByLookup m slots' = encodeByLookup m slots := by
  obtain ⟨hplain, rfl⟩ := SlotRequest.mapM_prepare h
  refine ⟨⟨_, hplain, encodeByLookup_prepared m _, encode_judged m _⟩, ?_⟩
  intro requests' slots' h' hplaces
  obtain ⟨-, rfl⟩ := SlotRequest.mapM_prepare h'
  rw [hplaces]

theorem encodeByLookup_of_requests_mixed :
    let requests : List SlotRequest := [⟨.alu .not, 0, .address 3⟩, ⟨.str, 1, .immediate 9⟩]
    let slots : List PreparedSlot :=
      [⟨0, .address 3, some (.ofCells (fetch 3 0))⟩, ⟨1, .immediate 9, none⟩]
    requests.mapM SlotRequest.prepare = .ok slots ∧
      ∃ plain, requests.mapM SlotRequest.slot = .ok plain ∧
        encodeByLookup (.alu .sub) slots = (encode (.alu .sub) plain).mapError .fault ∧
        Judged (.alu .sub) plain (encode (.alu .sub) plain) :=
  ⟨rfl, (encodeByLookup_of_requests (.alu .sub) rfl).1⟩

end TwinRom
