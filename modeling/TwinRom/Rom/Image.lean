import TwinRom.Machine.Mnemonic

/-!
# ROM images

An image is the content of a ROM: 256 instruction bytes and 256 data bytes, of which the first
`length` positions are in use and the others hold zeros.

`Image.ofStreams` fits two streams of any lengths into an image, `Image.trimmed` gives up the
positions at the end that hold nothing but zeros, `Image.invalidOpcodes` lists what a machine could
not run, and `Image.validate` reports the first of it. An image is determined by its used bytes
(`Image.ofStreams_used`).
-/

namespace TwinRom

/-- Two streams of any lengths, as a file may hold them. -/
structure Streams where
  /-- The instruction bytes. -/
  instructions : List UInt8
  /-- The data bytes. -/
  data : List UInt8
  deriving DecidableEq, Repr

/-- The content of a ROM. -/
@[ext] structure Image where
  /-- The instruction bytes. -/
  instructions : Vector UInt8 256
  /-- The data bytes. -/
  data : Vector UInt8 256
  /-- The number of positions in use. -/
  length : Nat
  length_le : length ≤ 256
  /-- The positions that are not in use hold zeros. -/
  padding : ∀ (p : Nat) (h : p < 256), length ≤ p → instructions[p] = 0 ∧ data[p] = 0
  deriving DecidableEq

namespace Image

/-! ## Fitting streams -/

/-- A stream cut or filled up with zeros to 256 bytes. -/
def fit (stream : List UInt8) : Vector UInt8 256 :=
  Vector.ofFn fun p => stream.getD p 0

@[simp] theorem getElem_fit (stream : List UInt8) (p : Nat) (h : p < 256) :
    (fit stream)[p] = stream.getD p 0 := by
  simp [fit]

/-- The image with the given streams. The longer one decides how many positions are in use. -/
def ofStreams (instructions data : List UInt8) : Image where
  instructions := fit instructions
  data := fit data
  length := min 256 (max instructions.length data.length)
  length_le := Nat.min_le_left _ _
  padding := by
    intro p h hp
    have hi : instructions.length ≤ p := by omega
    have hd : data.length ≤ p := by omega
    simp [hi, hd]

@[simp] theorem length_ofStreams (instructions data : List UInt8) :
    (ofStreams instructions data).length = min 256 (max instructions.length data.length) := rfl

/-! ## The used bytes -/

/-- The instruction bytes in use. -/
def usedInstructions (x : Image) : List UInt8 := x.instructions.toList.take x.length

/-- The data bytes in use. -/
def usedData (x : Image) : List UInt8 := x.data.toList.take x.length

@[simp] theorem length_usedInstructions (x : Image) : x.usedInstructions.length = x.length := by
  simp [usedInstructions, x.length_le]

@[simp] theorem length_usedData (x : Image) : x.usedData.length = x.length := by
  simp [usedData, x.length_le]

/-- Fitting the first `n` bytes of a ROM's stream gives the stream back if the others are zeros. -/
theorem fit_take (v : Vector UInt8 256) (n : Nat)
    (hz : ∀ (p : Nat) (h : p < 256), n ≤ p → v[p] = 0) : fit (v.toList.take n) = v := by
  ext p hp
  rw [getElem_fit]
  by_cases hn : p < n
  · simp [List.getD_eq_getElem?_getD, hn, hp]
  · have hlen : (v.toList.take n).length ≤ p := by simp; omega
    rw [List.getD_eq_getElem?_getD, List.getElem?_eq_none hlen, hz p hp (by omega)]
    rfl

/-- An image is determined by its used bytes. -/
theorem ofStreams_used (x : Image) : ofStreams x.usedInstructions x.usedData = x := by
  ext1
  · exact fit_take _ _ fun p h hp => (x.padding p h hp).1
  · exact fit_take _ _ fun p h hp => (x.padding p h hp).2
  · simp [x.length_le]

/-! ## Trimming -/

/-- Whether both streams hold zero at a position. -/
def isZeroAt (x : Image) (p : Nat) : Bool :=
  x.instructions.toList.getD p 0 == 0 && x.data.toList.getD p 0 == 0

/-- The number of positions up to and including the last one below `n` that is not zero. -/
def lastUsed (x : Image) : Nat → Nat
  | 0 => 0
  | n + 1 => if x.isZeroAt n then lastUsed x n else n + 1

theorem lastUsed_le (x : Image) : ∀ n, x.lastUsed n ≤ n
  | 0 => Nat.le_refl 0
  | n + 1 => by
    unfold lastUsed
    split
    · exact Nat.le_succ_of_le (lastUsed_le x n)
    · exact Nat.le_refl _

theorem isZeroAt_of_lastUsed_le (x : Image) :
    ∀ (n p : Nat), x.lastUsed n ≤ p → p < n → x.isZeroAt p = true
  | 0, p, _, hp => by omega
  | n + 1, p, hl, hp => by
    unfold lastUsed at hl
    split at hl
    next hz =>
      rcases Nat.lt_or_ge p n with h | h
      · exact isZeroAt_of_lastUsed_le x n p hl h
      · rwa [show p = n by omega]
    next => omega

/-- The image without the positions at its end that hold only zeros. -/
def trimmed (x : Image) : Image where
  instructions := x.instructions
  data := x.data
  length := x.lastUsed x.length
  length_le := Nat.le_trans (x.lastUsed_le _) x.length_le
  padding := by
    intro p h hp
    rcases Nat.lt_or_ge p x.length with hl | hl
    · have hz := x.isZeroAt_of_lastUsed_le _ p hp hl
      simpa [isZeroAt, List.getD_eq_getElem?_getD, h] using hz
    · exact x.padding p h hl

/-! ## Validity -/

/-- The positions whose opcode is not defined, with the opcode. -/
def invalidOpcodes (x : Image) : List (Nat × UInt8) :=
  (x.instructions.toList.zipIdx.filter fun p => !Opcode.isDefined p.1).map fun p => (p.2, p.1)

/-- The opcode that an image is rejected for, with its position: the first that is not defined. -/
def validate (x : Image) : Except (Nat × UInt8) Unit :=
  match x.invalidOpcodes with
  | [] => .ok ()
  | fault :: _ => .error fault

end Image

end TwinRom
