import Mathlib.Order.Bounds.Basic
import TwinRom.Rom.Image

/-!
# Facts about images

What `Image.ofStreams` keeps of its streams, what `Image.trimmed` depends on, and when nothing is
wrong with an image. Streams of one length that fit are the used bytes of their image
(`Image.usedInstructions_ofStreams`, `Image.usedData_ofStreams`), and images with the same bytes
are the same once they are trimmed (`Image.trimmed_eq_trimmed_iff`). A trimmed image is as short as
its bytes allow (`Image.isLeast_length_trimmed`), so that it is a canonical form
(`Image.canonical_form`).
-/

namespace TwinRom.Image

/-! ## Streams -/

/-- A stream that fits is the start of what it is fitted into. -/
theorem take_toList_fit {stream : List UInt8} (h : stream.length ≤ 256) :
    (fit stream).toList.take stream.length = stream := by
  apply List.ext_getElem
  · simp [h]
  · intro p _ hp
    simp [fit, List.getD_eq_getElem?_getD, hp]

theorem toList_fit {stream : List UInt8} (h : stream.length = 256) :
    (fit stream).toList = stream := by
  have htake := take_toList_fit (Nat.le_of_eq h)
  rwa [List.take_of_length_le (by simp [h])] at htake

/-- Fitting a stream adds no bytes but zeros. -/
theorem eq_zero_or_mem_of_mem_fit {stream : List UInt8} {b : UInt8}
    (h : b ∈ (fit stream).toList) : b = 0 ∨ b ∈ stream := by
  obtain ⟨p, hp, rfl⟩ := List.mem_iff_getElem.mp h
  by_cases hlt : p < stream.length
  · exact .inr (by simp [fit, List.getD_eq_getElem?_getD, hlt])
  · exact .inl (by simp [fit, List.getD_eq_getElem?_getD, Nat.le_of_not_lt hlt])

@[simp] theorem fit_toList (v : Vector UInt8 256) : fit v.toList = v := by
  have h := fit_take v 256 fun p hp hle => absurd hp (Nat.not_lt.mpr hle)
  rwa [List.take_of_length_le (by simp)] at h

variable {instructions data : List UInt8}

theorem usedInstructions_ofStreams (hlen : instructions.length = data.length)
    (hle : instructions.length ≤ 256) :
    (ofStreams instructions data).usedInstructions = instructions := by
  have hmin : min 256 (max instructions.length data.length) = instructions.length := by omega
  rw [usedInstructions, length_ofStreams, hmin]
  exact take_toList_fit hle

theorem usedData_ofStreams (hlen : instructions.length = data.length)
    (hle : instructions.length ≤ 256) : (ofStreams instructions data).usedData = data := by
  have hmin : min 256 (max instructions.length data.length) = data.length := by omega
  rw [usedData, length_ofStreams, hmin]
  exact take_toList_fit (hlen ▸ hle)

/-! ## Positions -/

/-- The instruction byte at a position. -/
def opcodeAt (x : Image) (p : Nat) : UInt8 := x.instructions.toList.getD p 0

/-- The data byte at a position. -/
def dataAt (x : Image) (p : Nat) : UInt8 := x.data.toList.getD p 0

theorem take_eq_map_range {n : Nat} {stream : List UInt8} (h : n ≤ stream.length) :
    stream.take n = (List.range n).map (stream.getD · 0) := by
  apply List.ext_getElem
  · simp [h]
  · intro p hp _
    have hlt : p < stream.length := by
      rw [List.length_take] at hp
      omega
    simp [List.getD_eq_getElem?_getD, hlt]

theorem usedInstructions_eq (x : Image) :
    x.usedInstructions = (List.range x.length).map x.opcodeAt :=
  take_eq_map_range (by simp [x.length_le])

theorem usedData_eq (x : Image) : x.usedData = (List.range x.length).map x.dataAt :=
  take_eq_map_range (by simp [x.length_le])

theorem zipIdx_map_range {α : Type} (f : Nat → α) (n : Nat) :
    ((List.range n).map f).zipIdx = (List.range n).map fun p => (f p, p) := by
  apply List.ext_getElem
  · simp
  · simp

/-- The used bytes with their positions. -/
theorem zipIdx_used (x : Image) : (x.usedInstructions.zip x.usedData).zipIdx =
    (List.range x.length).map fun p => ((x.opcodeAt p, x.dataAt p), p) := by
  rw [usedInstructions_eq, usedData_eq, List.zip_map', zipIdx_map_range]

/-! ## Trimming -/

@[simp] theorem instructions_trimmed (x : Image) : x.trimmed.instructions = x.instructions := rfl

@[simp] theorem data_trimmed (x : Image) : x.trimmed.data = x.data := rfl

/-- Behind the used part there are only zeros. -/
theorem isZeroAt_of_length_le (x : Image) {p : Nat} (h : x.length ≤ p) : x.isZeroAt p = true := by
  by_cases hp : p < 256
  · obtain ⟨hi, hd⟩ := x.padding p hp h
    simp [isZeroAt, List.getD_eq_getElem?_getD, hp, hi, hd]
  · have hp' : 256 ≤ p := Nat.le_of_not_lt hp
    simp [isZeroAt, List.getD_eq_getElem?_getD, hp']

theorem opcodeAt_of_length_le (x : Image) {p : Nat} (h : x.length ≤ p) : x.opcodeAt p = 0 := by
  have hzero := x.isZeroAt_of_length_le h
  rw [isZeroAt, Bool.and_eq_true] at hzero
  exact eq_of_beq hzero.1

/-- Positions that hold zeros do not count. -/
theorem lastUsed_add (x : Image) {n : Nat} (h : ∀ p, n ≤ p → x.isZeroAt p = true) :
    ∀ k, x.lastUsed (n + k) = x.lastUsed n
  | 0 => rfl
  | k + 1 => by
    rw [← Nat.add_assoc, lastUsed, if_pos (h (n + k) (Nat.le_add_right n k))]
    exact lastUsed_add x h k

/-- The last used position depends on the bytes only, not on the length that is stored. -/
theorem lastUsed_congr {x y : Image} (hi : x.instructions = y.instructions)
    (hd : x.data = y.data) : ∀ n, x.lastUsed n = y.lastUsed n
  | 0 => rfl
  | n + 1 => by
    rw [lastUsed, lastUsed, lastUsed_congr hi hd n, isZeroAt, isZeroAt, hi, hd]

/-- Trimming cuts right behind the last position that is not zero. -/
theorem length_trimmed (x : Image) : x.trimmed.length = x.lastUsed 256 := by
  have h := x.lastUsed_add (fun _ hp => x.isZeroAt_of_length_le hp) (256 - x.length)
  rw [Nat.add_sub_of_le x.length_le] at h
  exact h.symm

/-- Trimmed images are the same exactly if all their bytes are. -/
theorem trimmed_eq_trimmed_iff {x y : Image} :
    x.trimmed = y.trimmed ↔ x.instructions = y.instructions ∧ x.data = y.data := by
  constructor
  · intro h
    rw [← x.instructions_trimmed, ← x.data_trimmed, h]
    exact ⟨rfl, rfl⟩
  · rintro ⟨hi, hd⟩
    ext1
    · exact hi
    · exact hd
    · rw [length_trimmed, length_trimmed, lastUsed_congr hi hd]

@[simp] theorem trimmed_trimmed (x : Image) : x.trimmed.trimmed = x.trimmed :=
  trimmed_eq_trimmed_iff.mpr ⟨rfl, rfl⟩

theorem isZeroAt_iff (x : Image) {p : Nat} (h : p < 256) :
    x.isZeroAt p = true ↔ x.instructions[p] = 0 ∧ x.data[p] = 0 := by
  simp [isZeroAt, List.getD_eq_getElem?_getD, h]

/-- Trimming stops at a position that holds something. -/
theorem isZeroAt_of_lastUsed_eq (x : Image) : ∀ {n k : Nat}, x.lastUsed n = k + 1 →
    x.isZeroAt k = false
  | 0, k, h => absurd h.symm (Nat.succ_ne_zero k)
  | n + 1, k, h => by
    unfold lastUsed at h
    split at h
    next => exact isZeroAt_of_lastUsed_eq x h
    next hn =>
      obtain rfl : n = k := Nat.succ.inj h
      exact Bool.eq_false_iff.mpr hn

/-- A trimmed image has the least length behind which all bytes are zero. -/
theorem isLeast_length_trimmed (x : Image) :
    IsLeast {n : Nat | ∀ p : Fin 256, n ≤ p → x.instructions[p] = 0 ∧ x.data[p] = 0}
      x.trimmed.length := by
  refine ⟨fun p hp => x.trimmed.padding p p.isLt hp, fun n hn => ?_⟩
  by_contra hlt
  obtain ⟨k, hk⟩ := Nat.exists_eq_succ_of_ne_zero (show x.trimmed.length ≠ 0 by omega)
  have hnk : n ≤ k := by omega
  have hk256 : k < 256 := Nat.lt_of_succ_le (hk ▸ x.trimmed.length_le)
  -- the last position that is kept would hold zeros
  have hzero := (x.isZeroAt_iff hk256).mpr (hn ⟨k, hk256⟩ hnk)
  rw [x.isZeroAt_of_lastUsed_eq hk] at hzero
  cases hzero

/-! ## Validity -/

/-- Trimming changes no byte, so the same opcodes are invalid. -/
@[simp] theorem invalidOpcodes_trimmed (x : Image) : x.trimmed.invalidOpcodes = x.invalidOpcodes :=
  rfl

/-- An image without invalid opcodes has only defined ones, padding included. -/
theorem invalidOpcodes_eq_nil_iff {x : Image} :
    x.invalidOpcodes = [] ↔ ∀ op ∈ x.instructions.toList, Opcode.isDefined op = true := by
  rw [invalidOpcodes, List.map_eq_nil_iff, List.filter_eq_nil_iff]
  constructor
  · intro h op hop
    obtain ⟨p, hp⟩ := List.mem_iff_getElem?.mp hop
    simpa using h (op, p) (List.mem_zipIdx_iff_getElem?.mpr hp)
  · rintro h ⟨op, p⟩ hp
    simpa using h op (List.mem_of_getElem? (List.mem_zipIdx_iff_getElem?.mp hp))

/-- Nothing is wrong with the image of streams in which every opcode is defined. -/
theorem invalidOpcodes_ofStreams (data : List UInt8)
    (h : ∀ op ∈ instructions, Opcode.isDefined op = true) :
    (ofStreams instructions data).invalidOpcodes = [] := by
  rw [invalidOpcodes_eq_nil_iff]
  intro op hop
  rcases eq_zero_or_mem_of_mem_fit hop with rfl | hmem
  · rfl
  · exact h op hmem

/-- An image passes validation if nothing is found in it. -/
theorem validate_eq_ok_iff {x : Image} : x.validate = .ok () ↔ x.invalidOpcodes = [] := by
  unfold validate
  cases x.invalidOpcodes <;> simp

/-! ## The canonical form -/

/-- The canonical form of images. An image holds the bytes of the streams that it is built of, cut
or filled up with zeros, and is as long as the longer of them. Every image is built of its used
bytes in this way. Trimming an image changes no byte of it and leaves the least length behind which
there are only zeros. Two images are the same once they are trimmed exactly if all their bytes
are. -/
theorem canonical_form :
    (∀ (instructions data : List UInt8) (p : Fin 256),
        (ofStreams instructions data).instructions[p] = instructions.getD p 0 ∧
          (ofStreams instructions data).data[p] = data.getD p 0) ∧
      (∀ instructions data : List UInt8, (ofStreams instructions data).length =
        min 256 (max instructions.length data.length)) ∧
      (∀ x : Image, ofStreams x.usedInstructions x.usedData = x ∧
        (x.trimmed.instructions = x.instructions ∧ x.trimmed.data = x.data) ∧
        x.trimmed.trimmed = x.trimmed ∧
        IsLeast {n : Nat | ∀ p : Fin 256, n ≤ p → x.instructions[p] = 0 ∧ x.data[p] = 0}
          x.trimmed.length) ∧
      ∀ x y : Image,
        x.trimmed = y.trimmed ↔ x.instructions = y.instructions ∧ x.data = y.data := by
  refine ⟨fun instructions data p => ⟨?_, ?_⟩, length_ofStreams, fun x => ?_,
    fun x y => trimmed_eq_trimmed_iff⟩
  · exact getElem_fit instructions p p.isLt
  · exact getElem_fit data p p.isLt
  · exact ⟨ofStreams_used x, ⟨x.instructions_trimmed, x.data_trimmed⟩, x.trimmed_trimmed,
      x.isLeast_length_trimmed⟩

end TwinRom.Image
