import TwinRom.Proofs.Listings
import TwinRom.Proofs.RoundTrip
import TwinRom.Source.Program

/-!
# Validation

The validator and the listing tell reserved opcodes by tables of their own. The validator goes by
the opcodes that some mnemonic can emit (`Opcode.isDefined`) and looks at every byte of a ROM. The
listing goes by those that it can describe (`Opcode.describe?`) and looks at the positions in use.
Both tables hold the same opcodes (`Opcode.describe?_eq_none_iff`), and the positions that are not
in use hold a defined one, so nothing is found there (`Image.invalidOpcodes_eq`). What the validator
finds is therefore what the listing calls reserved (`listing_validation_agree`).
-/

namespace TwinRom

/-! ## Two tables of opcodes -/

/-- The defined opcodes are the two markers and those that an instruction can emit. -/
theorem Opcode.isDefined_iff {opcode : UInt8} : isDefined opcode = true ↔
    opcode = endOfData ∨ opcode = endOfInstructions ∨
      ∃ m ∈ Mnemonic.all, ∃ row ∈ m.variants, opcode ∈ row := by
  simp [isDefined, or_assoc]

theorem Opcode.mem_descriptions_of_isDefined {opcode : UInt8} (h : isDefined opcode = true) :
    opcode ∈ descriptions.map Prod.fst := by
  have hvariants : ∀ m ∈ Mnemonic.all, ∀ row ∈ m.variants,
      row.all (descriptions.map Prod.fst).contains = true := by decide
  rcases isDefined_iff.mp h with rfl | rfl | ⟨m, hm, row, hrow, hop⟩
  · decide
  · decide
  · exact List.contains_iff_mem.mp (List.all_eq_true.mp (hvariants m hm row hrow) opcode hop)

/-- The opcodes without a description are those that no program may hold. -/
theorem Opcode.describe?_eq_none_iff {opcode : UInt8} :
    describe? opcode = none ↔ isDefined opcode = false := by
  have hdefined : ∀ e ∈ descriptions, isDefined e.1 = true := by decide
  constructor
  · intro h
    rw [Bool.eq_false_iff]
    intro hop
    obtain ⟨e, he, rfl⟩ := List.mem_map.mp (mem_descriptions_of_isDefined hop)
    have hne := List.lookup_eq_none_iff.mp h e he
    simp at hne
  · intro h
    rw [Option.eq_none_iff_forall_ne_some]
    intro description hd
    rw [hdefined _ (mem_of_describe? hd)] at h
    cases h

/-- A listing says about an opcode that it is reserved exactly if it is not defined. -/
theorem Listing.remark_eq_reserved_iff {opcode data : UInt8} :
    (remark opcode data).toList = "reserved".toList ↔ Opcode.isDefined opcode = false := by
  have hnot : "reserved" ∉ remarks := by decide
  rw [String.toList_inj, ← Opcode.describe?_eq_none_iff]
  constructor
  · intro h
    rw [Option.eq_none_iff_forall_ne_some]
    intro description hd
    exact hnot (h ▸ remark_mem_remarks hd data)
  · exact fun h => remark_of_describe?_eq_none h data

/-! ## What the validator finds -/

namespace Image

/-- An invalid opcode is listed with its position, wherever it is in the ROM. -/
theorem mem_invalidOpcodes_iff {x : Image} {p : Nat} {opcode : UInt8} :
    (p, opcode) ∈ x.invalidOpcodes ↔
      ∃ h : p < 256, x.instructions[p] = opcode ∧ Opcode.isDefined opcode = false := by
  simp [invalidOpcodes, List.mem_zipIdx_iff_getElem?, Vector.getElem?_eq_some_iff]

/-- Only positions in use can hold an opcode that is not defined. -/
theorem invalidOpcodes_eq (x : Image) : x.invalidOpcodes =
    ((List.range x.length).filter fun p => !Opcode.isDefined (x.opcodeAt p)).map
      fun p => (p, x.opcodeAt p) := by
  have hbytes : x.instructions.toList = (List.range 256).map x.opcodeAt := by
    rw [← List.take_of_length_le (Nat.le_of_eq (x.instructions.length_toList))]
    exact take_eq_map_range (by simp)
  have hrange : List.range 256 =
      List.range x.length ++ (List.range (256 - x.length)).map (x.length + ·) := by
    rw [← List.range_add, Nat.add_sub_of_le x.length_le]
  have hpadding : ((List.range (256 - x.length)).map (x.length + ·)).filter
      (fun p => !Opcode.isDefined (x.opcodeAt p)) = [] := by
    rw [List.filter_eq_nil_iff]
    intro p hp
    obtain ⟨k, -, rfl⟩ := List.mem_map.mp hp
    rw [x.opcodeAt_of_length_le (Nat.le_add_right _ _)]
    decide
  calc x.invalidOpcodes
    _ = ((List.range 256).filter fun p => !Opcode.isDefined (x.opcodeAt p)).map
        fun p => (p, x.opcodeAt p) := by
      rw [invalidOpcodes, hbytes, zipIdx_map_range, List.filter_map, List.map_map]
      rfl
    _ = _ := by rw [hrange, List.filter_append, hpadding, List.append_nil]

theorem lt_length_of_mem_invalidOpcodes {x : Image} {fault : Nat × UInt8}
    (h : fault ∈ x.invalidOpcodes) : fault.1 < x.length := by
  rw [invalidOpcodes_eq] at h
  obtain ⟨p, hp, rfl⟩ := List.mem_map.mp h
  exact List.mem_range.mp (List.mem_filter.mp hp).1

/-- Invalid opcodes are listed from the front. -/
theorem pairwise_invalidOpcodes (x : Image) :
    x.invalidOpcodes.Pairwise fun fault other => fault.1 < other.1 := by
  rw [invalidOpcodes_eq, List.pairwise_map]
  exact List.pairwise_lt_range.filter _

/-- Validation reports the invalid opcode that comes first. -/
theorem validate_eq_error_iff {x : Image} {fault : Nat × UInt8} :
    x.validate = .error fault ↔
      fault ∈ x.invalidOpcodes ∧ ∀ other ∈ x.invalidOpcodes, fault.1 ≤ other.1 := by
  have hsorted := x.pairwise_invalidOpcodes
  unfold validate
  cases h : x.invalidOpcodes with
  | nil => simp
  | cons first rest =>
    rw [h] at hsorted
    have hlt : ∀ other ∈ rest, first.1 < other.1 := (List.pairwise_cons.mp hsorted).1
    simp only [Except.error.injEq]
    constructor
    · rintro rfl
      refine ⟨List.mem_cons_self, fun other hother => ?_⟩
      rcases List.mem_cons.mp hother with rfl | hother
      · exact Nat.le_refl _
      · exact Nat.le_of_lt (hlt other hother)
    · rintro ⟨hmem, hleast⟩
      rcases List.mem_cons.mp hmem with rfl | hmem
      · rfl
      · exact absurd (hleast first List.mem_cons_self) (Nat.not_le.mpr (hlt fault hmem))

end Image

/-! ## Agreement -/

/-- What the validator finds is what the listing calls reserved. -/
theorem Listing.reserved_content (x : Image) :
    ((content x).filter fun row => row.remark = "reserved".toList).map
      (fun row => (row.position, row.opcode)) = x.invalidOpcodes := by
  rw [content, List.filter_map, List.map_map, x.invalidOpcodes_eq]
  congr 1
  refine List.filter_congr fun p _ => ?_
  rw [Bool.eq_iff_iff, Function.comp_apply, decide_eq_true_eq, remark_eq_reserved_iff,
    Bool.not_eq_true']

/-- The listing and the validator agree. A listing has one row for each position in use, in
order, and the rows that it calls reserved are what the validator finds among all 256 bytes. All of
it is in use, and the least position is reported. Neither trimming an image nor writing and loading
it in any formats changes what is found. -/
theorem listing_validation_agree (x : Image) :
    (∃ rows : List Listing.Entry, Listing.entries (Listing.render x) = rows.map some ∧
        rows.map Listing.Entry.position = List.range x.length ∧
        (rows.filter fun row => row.remark = "reserved".toList).map
          (fun row => (row.position, row.opcode)) = x.invalidOpcodes) ∧
      (∀ position opcode, (position, opcode) ∈ x.invalidOpcodes ↔
        ∃ h : position < 256, x.instructions[position] = opcode ∧
          Opcode.isDefined opcode = false) ∧
      (∀ fault ∈ x.invalidOpcodes, fault.1 < x.length) ∧
      (∀ fault, x.validate = .error fault ↔
        fault ∈ x.invalidOpcodes ∧ ∀ other ∈ x.invalidOpcodes, fault.1 ≤ other.1) ∧
      (x.trimmed.invalidOpcodes = x.invalidOpcodes ∧ x.trimmed.validate = x.validate) ∧
      ∀ formats, .listing ∉ formats → ∃ y, x.passThrough formats = .ok y ∧
        y.invalidOpcodes = x.invalidOpcodes ∧ y.validate = x.validate := by
  refine ⟨⟨Listing.content x, Listing.entries_render x, ?_, Listing.reserved_content x⟩,
    fun position opcode => Image.mem_invalidOpcodes_iff,
    fun fault => Image.lt_length_of_mem_invalidOpcodes, fun fault => Image.validate_eq_error_iff,
    ⟨rfl, rfl⟩, fun formats hformats => ⟨_, Image.passThrough_eq_ok hformats x, ?_, ?_⟩⟩
  · rw [Listing.content, List.map_map]
    exact List.map_id _
  · split <;> rfl
  · split <;> rfl

/-- Two reserved opcodes between defined ones, and a position of zeros at the end. -/
theorem listing_validation_agree_two_reserved :
    let x := Image.ofStreams [0x25, 0x09, 0x00, 0x01] [0x02, 0x00, 0x07, 0x00, 0x00]
    let formats := [Format.json, .markers, .bin]
    .listing ∉ formats ∧ x.invalidOpcodes = [(1, 0x09), (3, 0x01)] ∧
      x.validate = .error (1, 0x09) ∧
      ∃ y, x.passThrough formats = .ok y ∧ y.invalidOpcodes = x.invalidOpcodes ∧
        y.validate = x.validate := by
  intro x formats
  have hformats : Format.listing ∉ formats := by decide
  have hinvalid : x.invalidOpcodes = [(1, 0x09), (3, 0x01)] := by
    rw [x.invalidOpcodes_eq]
    decide +kernel
  obtain ⟨-, -, -, hvalidate, -, hchain⟩ := listing_validation_agree x
  refine ⟨hformats, hinvalid, (hvalidate _).mpr ?_, hchain formats hformats⟩
  rw [hinvalid]
  decide

end TwinRom
