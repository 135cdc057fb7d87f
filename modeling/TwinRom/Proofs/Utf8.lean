import TwinRom.Proofs.Outcome
import TwinRom.Text.Utf8

/-!
# Texts survive UTF-8

Decoding the bytes of a text gives the text back (`Utf8.decode_encode`). A character is one to
four bytes; the ranges that the decoder checks are exactly those in which the bytes of a character
lie, because a character is no surrogate and is never written longer than it has to be.
-/

namespace TwinRom.Utf8

variable {i n : Nat}

/-! ## Opening bytes -/

theorem toNat_ofNat (h : n < 256) : (UInt8.ofNat n).toNat = n := UInt8.toNat_ofNat_of_lt h

theorem opens?_two (h : 0xC2 ≤ n) (h' : n ≤ 0xDF) :
    opens? i (UInt8.ofNat n) = some ⟨i, 1, 0, 0x80, 0xBF, n - 0xC0⟩ := by
  have hn : (UInt8.ofNat n).toNat = n := toNat_ofNat (by omega)
  simp [opens?, UInt8.le_iff_toNat_le, hn, h, h']

/-- The first byte of three. Two of these bytes leave a smaller range to the next one. -/
theorem opens?_three (h : 0xE0 ≤ n) (h' : n ≤ 0xEF) : ∃ low high,
    opens? i (UInt8.ofNat n) = some ⟨i, 1, 1, low, high, n - 0xE0⟩ ∧
      low.toNat = (if n = 0xE0 then 0xA0 else 0x80) ∧
      high.toNat = if n = 0xED then 0x9F else 0xBF := by
  have hn : (UInt8.ofNat n).toNat = n := toNat_ofNat (by omega)
  have htwo : ¬(0xC2 ≤ n ∧ n ≤ 0xDF) := by omega
  simp only [opens?, UInt8.le_iff_toNat_le, ← UInt8.toNat_inj, hn, UInt8.reduceToNat, if_neg htwo]
  by_cases hE0 : n = 0xE0
  · exact ⟨0xA0, 0xBF, by simp [hE0]⟩
  · by_cases hED : n = 0xED
    · exact ⟨0x80, 0x9F, by simp [hED]⟩
    · have hmid : 0xE1 ≤ n ∧ n ≤ 0xEF := by omega
      exact ⟨0x80, 0xBF, by simp [hE0, hED, hmid]⟩

/-- The first byte of four, again with two exceptions. -/
theorem opens?_four (h : 0xF0 ≤ n) (h' : n ≤ 0xF4) : ∃ low high,
    opens? i (UInt8.ofNat n) = some ⟨i, 1, 2, low, high, n - 0xF0⟩ ∧
      low.toNat = (if n = 0xF0 then 0x90 else 0x80) ∧
      high.toNat = if n = 0xF4 then 0x8F else 0xBF := by
  have hn : (UInt8.ofNat n).toNat = n := toNat_ofNat (by omega)
  have htwo : ¬(0xC2 ≤ n ∧ n ≤ 0xDF) := by omega
  have hthree : n ≠ 0xE0 ∧ n ≠ 0xED ∧ ¬(0xE1 ≤ n ∧ n ≤ 0xEF) := by omega
  simp only [opens?, UInt8.le_iff_toNat_le, ← UInt8.toNat_inj, hn, UInt8.reduceToNat, if_neg htwo,
    if_neg hthree.1, if_neg hthree.2.1, if_neg hthree.2.2]
  by_cases hF0 : n = 0xF0
  · exact ⟨0x90, 0xBF, by simp [hF0]⟩
  · by_cases hF4 : n = 0xF4
    · exact ⟨0x80, 0x8F, by simp [hF4]⟩
    · have hmid : 0xF1 ≤ n ∧ n ≤ 0xF3 := by omega
      exact ⟨0x80, 0xBF, by simp [hF0, hF4, hmid]⟩

/-! ## Single bytes -/

/-- A byte below `0x80` is a character by itself. -/
theorem decodeFrom_ascii (h : n < 0x80) (bs : List UInt8) :
    decodeFrom i none (UInt8.ofNat n :: bs) =
      (decodeFrom (i + 1) none bs).map (Char.ofNat n :: ·) := by
  have hn : (UInt8.ofNat n).toNat = n := toNat_ofNat (by omega)
  simp [decodeFrom, UInt8.lt_iff_toNat_lt, hn, h]

theorem decodeFrom_opening {s : Sequence} (h : 0x80 ≤ n) (h' : n < 256)
    (hs : opens? i (UInt8.ofNat n) = some s) (bs : List UInt8) :
    decodeFrom i none (UInt8.ofNat n :: bs) = decodeFrom (i + 1) (some s) bs := by
  have hnot : ¬UInt8.ofNat n < 0x80 := by simp [UInt8.lt_iff_toNat_lt, toNat_ofNat h', h]
  simp only [decodeFrom, if_neg hnot, hs]

/-- Each further byte adds six bits. -/
theorem Sequence.push_ofNat (s : Sequence) (h : n < 256) :
    s.push (UInt8.ofNat n) = s.bits * 64 + (n - 0x80) := by
  unfold Sequence.push
  rw [toNat_ofNat h]

theorem Sequence.accepts {s : Sequence} (hlow : s.low.toNat ≤ n) (hhigh : n ≤ s.high.toNat) :
    s.low ≤ UInt8.ofNat n ∧ UInt8.ofNat n ≤ s.high := by
  have hbound := s.high.toNat_lt
  rw [UInt8.le_iff_toNat_le, UInt8.le_iff_toNat_le, toNat_ofNat (by omega)]
  exact ⟨hlow, hhigh⟩

/-- A byte in range inside a sequence adds its bits. -/
theorem decodeFrom_next {s : Sequence} {m : Nat} (hm : s.more = m + 1) (hlow : s.low.toNat ≤ n)
    (hhigh : n ≤ s.high.toNat) (bs : List UInt8) :
    decodeFrom i (some s) (UInt8.ofNat n :: bs) =
      decodeFrom (i + 1)
        (some ⟨s.start, s.read + 1, m, 0x80, 0xBF, s.push (UInt8.ofNat n)⟩) bs := by
  have hin := Sequence.accepts hlow hhigh
  obtain ⟨start, read, more, low, high, bits⟩ := s
  obtain rfl := hm
  exact if_pos hin

/-- The last byte of a sequence completes a character. -/
theorem decodeFrom_last {s : Sequence} (hm : s.more = 0) (hlow : s.low.toNat ≤ n)
    (hhigh : n ≤ s.high.toNat) (bs : List UInt8) :
    decodeFrom i (some s) (UInt8.ofNat n :: bs) =
      (decodeFrom (i + 1) none bs).map (Char.ofNat (s.push (UInt8.ofNat n)) :: ·) := by
  have hin := Sequence.accepts hlow hhigh
  obtain ⟨start, read, more, low, high, bits⟩ := s
  obtain rfl := hm
  exact if_pos hin

/-! ## Characters -/

section Characters

variable {v : Nat} (bs : List UInt8)

theorem decodeFrom_two (h : 0x80 ≤ v) (h' : v ≤ 0x7FF) :
    decodeFrom i none (UInt8.ofNat (v / 64 % 32 + 192) :: UInt8.ofNat (v % 64 + 128) :: bs) =
      (decodeFrom (i + 2) none bs).map (Char.ofNat v :: ·) := by
  have hopen := opens?_two (i := i) (n := v / 64 % 32 + 192) (by omega) (by omega)
  rw [decodeFrom_opening (by omega) (by omega) hopen]
  refine (decodeFrom_last rfl (by simp) (by simp; omega) bs).trans ?_
  rw [Sequence.push_ofNat _ (by omega)]
  have hbits : (v / 64 % 32 + 192 - 192) * 64 + (v % 64 + 128 - 128) = v := by omega
  rw [hbits]

/-- A character of three bytes is decoded, the surrogates being none. -/
theorem decodeFrom_three (h : 0x800 ≤ v) (h' : v ≤ 0xFFFF) (hv : v < 0xD800 ∨ 0xDFFF < v) :
    decodeFrom i none (UInt8.ofNat (v / 4096 % 16 + 224) :: UInt8.ofNat (v / 64 % 64 + 128) ::
        UInt8.ofNat (v % 64 + 128) :: bs) =
      (decodeFrom (i + 3) none bs).map (Char.ofNat v :: ·) := by
  obtain ⟨low, high, hopen, hlow, hhigh⟩ :=
    opens?_three (i := i) (n := v / 4096 % 16 + 224) (by omega) (by omega)
  rw [decodeFrom_opening (by omega) (by omega) hopen]
  -- below `0xA0` after `0xE0` the form would be overlong, above `0x9F` after `0xED` a surrogate
  have hlow' : low.toNat ≤ v / 64 % 64 + 128 := by
    rw [hlow]
    split <;> omega
  have hhigh' : v / 64 % 64 + 128 ≤ high.toNat := by
    rw [hhigh]
    split <;> omega
  refine (decodeFrom_next rfl hlow' hhigh' _).trans ?_
  refine (decodeFrom_last rfl (by simp) (by simp; omega) bs).trans ?_
  rw [Sequence.push_ofNat _ (by omega), Sequence.push_ofNat _ (by omega)]
  have hbits : ((v / 4096 % 16 + 224 - 224) * 64 + (v / 64 % 64 + 128 - 128)) * 64 +
      (v % 64 + 128 - 128) = v := by omega
  rw [hbits]

theorem decodeFrom_four (h : 0x10000 ≤ v) (h' : v < 0x110000) :
    decodeFrom i none (UInt8.ofNat (v / 262144 % 8 + 240) ::
        UInt8.ofNat (v / 4096 % 64 + 128) :: UInt8.ofNat (v / 64 % 64 + 128) ::
        UInt8.ofNat (v % 64 + 128) :: bs) =
      (decodeFrom (i + 4) none bs).map (Char.ofNat v :: ·) := by
  obtain ⟨low, high, hopen, hlow, hhigh⟩ :=
    opens?_four (i := i) (n := v / 262144 % 8 + 240) (by omega) (by omega)
  rw [decodeFrom_opening (by omega) (by omega) hopen]
  -- below `0x90` after `0xF0` the form would be overlong, above `0x8F` after `0xF4` out of range
  have hlow' : low.toNat ≤ v / 4096 % 64 + 128 := by
    rw [hlow]
    split <;> omega
  have hhigh' : v / 4096 % 64 + 128 ≤ high.toNat := by
    rw [hhigh]
    split <;> omega
  refine (decodeFrom_next rfl hlow' hhigh' _).trans ?_
  refine (decodeFrom_next rfl (by simp) (by simp; omega) _).trans ?_
  refine (decodeFrom_last rfl (by simp) (by simp; omega) bs).trans ?_
  rw [Sequence.push_ofNat _ (by omega), Sequence.push_ofNat _ (by omega),
    Sequence.push_ofNat _ (by omega)]
  have hbits : (((v / 262144 % 8 + 240 - 240) * 64 + (v / 4096 % 64 + 128 - 128)) * 64 +
      (v / 64 % 64 + 128 - 128)) * 64 + (v % 64 + 128 - 128) = v := by omega
  rw [hbits]

/-- A character is decoded from its bytes, and what follows is left. -/
theorem decodeFrom_utf8EncodeChar (c : Char) :
    decodeFrom i none (String.utf8EncodeChar c ++ bs) =
      (decodeFrom (i + (String.utf8EncodeChar c).length) none bs).map (c :: ·) := by
  have hvalid : c.toNat < 0xD800 ∨ 0xDFFF < c.toNat ∧ c.toNat < 0x110000 := c.valid
  have hc : Char.ofNat c.toNat = c := Char.ofNat_toNat c
  rw [String.utf8EncodeChar.eq_1, show c.val.toNat = c.toNat from rfl]
  generalize c.toNat = v at hvalid hc
  subst hc
  split
  next h₁ => exact decodeFrom_ascii (by omega) bs
  next h₁ =>
    split
    next h₂ => exact decodeFrom_two bs (by omega) h₂
    next h₂ =>
      split
      next h₃ => exact decodeFrom_three bs (by omega) h₃ (by omega)
      next h₃ => exact decodeFrom_four bs (by omega) (by omega)

end Characters

/-- What is encoded is decoded again, at any offset. -/
theorem decodeFrom_encode : ∀ (t : Text) (i : Nat), decodeFrom i none (encode t) = .ok t
  | [], _ => rfl
  | c :: t, i => by
    rw [encode_cons, decodeFrom_utf8EncodeChar, decodeFrom_encode t]
    rfl

theorem utf8EncodeChar_of_lt {c : Char} (h : c.toNat < 0x80) :
    String.utf8EncodeChar c = [UInt8.ofNat c.toNat] :=
  if_pos (Nat.le_of_lt_succ h)

theorem toNat_charOfNat (h : n < 0xD800) : (Char.ofNat n).toNat = n := by
  rw [Char.ofNat, dif_pos (show n.isValidChar from .inl h)]
  rfl

/-- A byte of ASCII in front is a character of its own. -/
theorem encode_eq_cons {t : Text} {b : UInt8} {bs : List UInt8} (h : encode t = b :: bs)
    (hb : b.toNat < 0x80) : ∃ rest, t = Char.ofNat b.toNat :: rest ∧ encode rest = bs := by
  have hdecode := decodeFrom_encode t 0
  rw [h, ← UInt8.ofNat_toNat (x := b), decodeFrom_ascii hb, map_eq_ok_iff] at hdecode
  obtain ⟨rest, -, rfl⟩ := hdecode
  have hc : (Char.ofNat b.toNat).toNat < 0x80 := by rwa [toNat_charOfNat (by omega)]
  rw [encode_cons, utf8EncodeChar_of_lt hc, List.singleton_append] at h
  exact ⟨rest, rfl, (List.cons.inj h).2⟩

/-- Every text is read back from its bytes. -/
@[simp] theorem decode_encode (t : Text) : decode (encode t) = .ok t := decodeFrom_encode t 0

end TwinRom.Utf8
