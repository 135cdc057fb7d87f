import TwinRom.Proofs.Digits
import TwinRom.Proofs.Spacing
import TwinRom.Proofs.Utf8
import TwinRom.Rom.HexLines
import TwinRom.Rom.Markers

/-!
# Streams on two lines

The two formats that have one line for each stream.

In the one with end markers a stream is written as words, and its marker as one more
(`Markers.WritesLine`). Exactly that marker is taken off again, whatever bytes the stream itself
ends in, and a stream that does not end in its marker may go without (`Markers.read_of_writes`).

In the other a byte is two digits (`HexLines.Spells`), and the lines that are accepted are those
with an even number of digits and nothing else (`HexLines.readLine_eq_ok_iff`,
`HexLines.exists_spells_iff`). What becomes of a text is decided by its first two filled lines
(`HexLines.read_eq_ok_iff`, `HexLines.exists_read_eq_hex_iff`, `HexLines.read_eq_missing_iff`).
-/

namespace TwinRom

/-! ## End markers -/

namespace Markers

/-- The spellings of a byte: hexadecimal digits, perhaps with `0x` in front. -/
inductive SpellsByte (b : UInt8) : Text → Prop where
  | plain {ds : Text} (h : Text.WritesNat 16 b.toNat ds) : SpellsByte b ds
  | signed {x : Char} {ds : Text} (hx : x = 'x' ∨ x = 'X') (h : Text.WritesNat 16 b.toNat ds) :
      SpellsByte b ('0' :: x :: ds)

theorem dropSign_of_writesNat {n : Nat} {ds : Text} (h : Text.WritesNat 16 n ds) :
    dropSign ds = ds := by
  have hdigit : ∀ {x : Char} {cs : Text}, '0' :: x :: cs = ds → x ≠ 'x' ∧ x ≠ 'X' := by
    intro x cs hds
    obtain ⟨v, hv⟩ := h.isDigitOf_of_mem x (by simp [← hds])
    rw [← Text.digit?_eq_some_iff] at hv
    constructor <;> rintro rfl <;> simp [Text.digit?, Text.digitValue?] at hv
  unfold dropSign
  split
  next => exact absurd rfl (hdigit rfl).1
  next => exact absurd rfl (hdigit rfl).2
  next => rfl

theorem SpellsByte.byte?_eq {b : UInt8} {w : Text} (h : SpellsByte b w) :
    Text.byte? 16 (dropSign w) = some b := by
  rcases h with h | ⟨rfl | rfl, h⟩
  · rw [dropSign_of_writesNat h]
    exact Text.byte?_of_writesNat h
  · exact Text.byte?_of_writesNat h
  · exact Text.byte?_of_writesNat h

theorem SpellsByte.isWord {b : UInt8} {w : Text} (h : SpellsByte b w) : Text.IsWord w := by
  rcases h with h | ⟨hx, h⟩
  · exact h.isWord
  · refine ⟨List.cons_ne_nil _ _, List.forall_mem_cons.mpr
      ⟨by simp, List.forall_mem_cons.mpr ⟨?_, h.isWord.visible⟩⟩⟩
    rcases hx with rfl | rfl <;> simp

/-- The lines that write a stream: with its end marker, or without if the stream has bytes and the
last of them is not the marker. -/
inductive WritesLine (marker : UInt8) (stream : List UInt8) (t : Text) : Prop where
  | closed (h : Text.Spaced SpellsByte (stream ++ [marker]) t)
  | unclosed (hne : stream ≠ []) (hlast : stream.getLast? ≠ some marker)
      (h : Text.Spaced SpellsByte stream t)

/-- The texts that write two streams, given from line feed to line feed. What stands on the lines
behind the second stream does not count. -/
inductive Writes (s : Streams) (lines : List Text) : Prop where
  | intro {first second : Text} (hlines : Text.FirstTwo first second lines)
      (hfirst : WritesLine 0xFF s.instructions first) (hsecond : WritesLine 0xFE s.data second)

/-- Only the marker at the end is dropped, and bytes that look like it are kept. -/
theorem dropMarker_append (stream : List UInt8) (marker : UInt8) :
    dropMarker marker (stream ++ [marker]) = stream := by
  rw [dropMarker, List.getLast?_concat, if_pos rfl, List.dropLast_concat]

/-- What is read depends on the words of the line only. -/
theorem readLine_eq_ok_iff {marker : UInt8} {n : Nat} {t : Text} {stream : List UInt8} :
    readLine marker n t = .ok stream ↔ ∃ bytes : List UInt8,
      (Text.words t).map (fun w => Text.byte? 16 (dropSign w)) = bytes.map some ∧
        dropMarker marker bytes = stream := by
  rw [readLine, bind_eq_ok_iff]
  refine exists_congr fun bytes => and_congr (mapM_eq_ok_iff_map_eq fun w b => ?_) ?_
  · rcases Text.byte? 16 (dropSign w) with _ | _ <;> simp
  · rw [Except.ok.injEq]

/-- A line that writes a stream is read as the stream, with its marker or without. -/
theorem readLine_of_writesLine {marker : UInt8} {stream : List UInt8} {t : Text}
    (h : WritesLine marker stream t) (n : Nat) : readLine marker n t = .ok stream := by
  have hwords : ∀ {bytes : List UInt8}, Text.Spaced SpellsByte bytes t →
      (Text.words t).map (fun w => Text.byte? 16 (dropSign w)) = bytes.map some := fun h =>
    h.map_words (fun _ _ => SpellsByte.isWord) fun _ _ => SpellsByte.byte?_eq
  rw [readLine_eq_ok_iff]
  rcases h with h | ⟨-, hlast, h⟩
  · exact ⟨_, hwords h, dropMarker_append stream marker⟩
  · exact ⟨_, hwords h, if_neg hlast⟩

/-- A line that writes a stream is not blank, as an empty stream needs its marker. -/
theorem WritesLine.isFilled_eq {marker : UInt8} {stream : List UInt8} {t : Text}
    (h : WritesLine marker stream t) : Text.isFilled t = true := by
  have hfilled : ∀ {bytes : List UInt8}, Text.Spaced SpellsByte bytes t → bytes ≠ [] →
      Text.isFilled t = true := fun h =>
    h.isFilled_eq (fun _ _ => SpellsByte.isWord) fun _ _ => SpellsByte.byte?_eq
  rcases h with h | ⟨hne, -, h⟩
  · exact hfilled h (by simp)
  · exact hfilled h hne

/-- The numbered lines that count are the lines that are not blank. -/
theorem map_fst_filledLines (t : Text) :
    (filledLines t).map Prod.fst = (Text.lines t).filter Text.isFilled := by
  have hlines : ((Text.lines t).zipIdx 1).map Prod.fst = Text.lines t := List.zipIdx_map_fst 1 _
  conv_rhs => rw [← hlines, List.filter_map]
  rfl

/-- Both streams are read, however they are spelled. -/
theorem read_of_writes {s : Streams} {t : Text} (h : Writes s (t.splitOn '\n')) :
    read t = .ok s := by
  obtain ⟨hlines, hfirst, hsecond⟩ := h
  obtain ⟨back, hback⟩ := hlines.filter_isFilled hfirst.isFilled_eq hsecond.isFilled_eq
  have hwords := Text.map_filter_lines (Text.words_concat (c := '\r') rfl) t
  rw [hback, ← map_fst_filledLines, List.map_map, List.map_cons, List.map_cons] at hwords
  obtain ⟨⟨a, m⟩, others, hfilled, ha, hothers⟩ := List.map_eq_cons_iff.mp hwords
  obtain ⟨⟨b, n⟩, others, rfl, hb, -⟩ := List.map_eq_cons_iff.mp hothers
  have hreadFirst : readLine 0xFF m a = .ok s.instructions := by
    have hread := readLine_of_writesLine hfirst 0
    rw [readLine_eq_ok_iff, ← ha] at hread
    exact readLine_eq_ok_iff.mpr hread
  have hreadSecond : readLine 0xFE n b = .ok s.data := by
    have hread := readLine_of_writesLine hsecond 0
    rw [readLine_eq_ok_iff, ← hb] at hread
    exact readLine_eq_ok_iff.mpr hread
  rw [read, hfilled]
  exact bind_eq_ok_iff.mpr ⟨_, hreadFirst, bind_eq_ok_iff.mpr ⟨_, hreadSecond, rfl⟩⟩

end Markers

/-! ## Digits only -/

namespace HexLines

/-- The lines that write a stream, two digits to a byte. -/
inductive Spells : List UInt8 → Text → Prop where
  | nil : Spells [] []
  | cons {b : UInt8} {high low : Char} {stream : List UInt8} {t : Text}
      (hhigh : Text.IsDigitOf 16 (b.toNat / 16) high) (hlow : Text.IsDigitOf 16 (b.toNat % 16) low)
      (h : Spells stream t) : Spells (b :: stream) (high :: low :: t)

/-- Any two digits write the first byte of a longer stream. -/
theorem Spells.cons_of_digits {high low : Nat} {c d : Char} {stream : List UInt8} {t : Text}
    (hc : Text.IsDigitOf 16 high c) (hd : Text.IsDigitOf 16 low d) (h : Spells stream t) :
    Spells (UInt8.ofNat (high * 16 + low) :: stream) (c :: d :: t) := by
  have hhigh := hc.lt_radix
  have hlow := hd.lt_radix
  have hb : (UInt8.ofNat (high * 16 + low)).toNat = high * 16 + low :=
    UInt8.toNat_ofNat_of_lt (by simp only [UInt8.size]; omega)
  refine .cons ?_ ?_ h
  · rwa [hb, show (high * 16 + low) / 16 = high by omega]
  · rwa [hb, show (high * 16 + low) % 16 = low by omega]

/-- An even number of digits in either case, and nothing else. -/
structure IsHex (t : Text) : Prop where
  even : t.length % 2 = 0
  digits : ∀ c ∈ t, ∃ v, Text.IsDigitOf 16 v c

/-- Two digits to a byte make an even number of digits. -/
theorem Spells.isHex {stream : List UInt8} {t : Text} (h : Spells stream t) : IsHex t := by
  induction h with
  | nil => exact ⟨rfl, List.forall_mem_nil _⟩
  | cons hhigh hlow _ ih =>
    refine ⟨?_, List.forall_mem_cons.mpr ⟨⟨_, hhigh⟩, ?_⟩⟩
    · have heven := ih.even
      simp only [List.length_cons]
      omega
    · exact List.forall_mem_cons.mpr ⟨⟨_, hlow⟩, ih.digits⟩

/-- An even number of digits can be taken two by two. -/
theorem IsHex.exists_spells : ∀ {t : Text}, IsHex t → ∃ stream, Spells stream t
  | [], _ => ⟨[], .nil⟩
  | [_], h => absurd h.even (by simp)
  | a :: b :: t, h => by
    obtain ⟨⟨high, hhigh⟩, hdigits⟩ := List.forall_mem_cons.mp h.digits
    obtain ⟨⟨low, hlow⟩, hdigits⟩ := List.forall_mem_cons.mp hdigits
    have heven : t.length % 2 = 0 := by
      have heven := h.even
      simp only [List.length_cons] at heven
      omega
    obtain ⟨stream, hstream⟩ := IsHex.exists_spells ⟨heven, hdigits⟩
    exact ⟨_, .cons_of_digits hhigh hlow hstream⟩

theorem exists_spells_iff {t : Text} : (∃ stream, Spells stream t) ↔ IsHex t :=
  ⟨fun ⟨_, h⟩ => h.isHex, IsHex.exists_spells⟩

/-- A byte of the text is accepted as a digit exactly if it is the code of one. -/
theorem digit_eq_ok_iff {b : UInt8} {index v : Nat} :
    digit b index = .ok v ↔ Text.IsDigitOf 16 v (Char.ofNat b.toNat) := by
  rw [← Text.digit?_eq_some_iff, digit]
  rcases Text.digit? 16 (Char.ofNat b.toNat) with _ | _ <;> simp

/-- A digit is one byte. -/
theorem encode_digit {v : Nat} {c : Char} (h : Text.IsDigitOf 16 v c) (t : Text) :
    Utf8.encode (c :: t) = UInt8.ofNat c.toNat :: Utf8.encode t := by
  have hascii := h.visible.2
  rw [Utf8.encode_cons, Utf8.utf8EncodeChar_of_lt (by omega), List.singleton_append]

theorem digit_of_isDigitOf {v : Nat} {c : Char} (h : Text.IsDigitOf 16 v c) (index : Nat) :
    digit (UInt8.ofNat c.toNat) index = .ok v := by
  have hascii := h.visible.2
  rwa [digit_eq_ok_iff, Utf8.toNat_ofNat (by omega), Char.ofNat_toNat]

theorem Spells.length_encode {stream : List UInt8} {t : Text} (h : Spells stream t) :
    (Utf8.encode t).length = 2 * stream.length := by
  induction h with
  | nil => rfl
  | cons hhigh hlow _ ih =>
    rw [encode_digit hhigh, encode_digit hlow, List.length_cons, List.length_cons, ih,
      List.length_cons]
    omega

/-- What is written as digits is decoded. -/
theorem Spells.decodeFrom_encode {stream : List UInt8} {t : Text} (h : Spells stream t)
    (index : Nat) : decodeFrom index (Utf8.encode t) = .ok stream := by
  induction h generalizing index with
  | nil => rfl
  | @cons b _ _ stream _ hhigh hlow _ ih =>
    have hb : UInt8.ofNat (b.toNat / 16 * 16 + b.toNat % 16) = b := by
      rw [Nat.div_add_mod', UInt8.ofNat_toNat]
    rw [encode_digit hhigh, encode_digit hlow, decodeFrom, digit_of_isDigitOf hhigh,
      digit_of_isDigitOf hlow]
    refine bind_eq_ok_iff.mpr ⟨_, rfl, bind_eq_ok_iff.mpr ⟨_, rfl, bind_eq_ok_iff.mpr
      ⟨stream, ih (index + 2), ?_⟩⟩⟩
    rw [hb]

/-- A byte that is read as a digit is a character of its own. -/
theorem exists_cons_of_digit {index v : Nat} {t : Text} {b : UInt8} {bs : List UInt8}
    (ht : Utf8.encode t = b :: bs) (h : digit b index = .ok v) :
    ∃ c rest, t = c :: rest ∧ Text.IsDigitOf 16 v c ∧ Utf8.encode rest = bs := by
  rw [digit_eq_ok_iff] at h
  have hlt : b.toNat < 256 := b.toNat_lt
  have hascii := h.visible.2
  rw [Utf8.toNat_charOfNat (by omega)] at hascii
  obtain ⟨rest, rfl, hrest⟩ := Utf8.encode_eq_cons ht (by omega)
  exact ⟨_, rest, rfl, h, hrest⟩

/-- What is decoded was written as digits. -/
theorem Spells.of_decodeFrom {index : Nat} {t : Text} {stream bytes : List UInt8}
    (ht : Utf8.encode t = bytes) (h : decodeFrom index bytes = .ok stream) :
    Spells stream t := by
  fun_induction decodeFrom index bytes generalizing t stream with
  | case1 =>
    obtain rfl : t = [] := by
      rcases t with _ | ⟨c, t⟩
      · rfl
      · simp at ht
    rw [← Except.ok.inj h]
    exact .nil
  | case2 => exact absurd h (by simp)
  | case3 index a b bytes ih =>
    obtain ⟨high, hhigh, h⟩ := bind_eq_ok_iff.mp h
    obtain ⟨low, hlow, h⟩ := bind_eq_ok_iff.mp h
    obtain ⟨rest, hrest, h⟩ := bind_eq_ok_iff.mp h
    obtain ⟨c, t, rfl, hc, ht⟩ := exists_cons_of_digit ht hhigh
    obtain ⟨d, t, rfl, hd, ht⟩ := exists_cons_of_digit ht hlow
    rw [← Except.ok.inj h]
    exact .cons_of_digits hc hd (ih ht hrest)

/-- A line is accepted exactly if it writes a stream, and then it is read as that stream. -/
theorem readLine_eq_ok_iff {t : Text} {stream : List UInt8} :
    readLine t = .ok stream ↔ Spells stream t := by
  have hmap : readLine t = .ok stream ↔ decode (Utf8.encode t) = .ok stream := by
    rw [readLine]
    rcases decode (Utf8.encode t) with _ | _ <;> simp [Except.mapError]
  rw [hmap, decode]
  refine ⟨fun h => ?_, fun h => ?_⟩
  · split at h
    next => exact absurd h (by simp)
    next => exact .of_decodeFrom rfl h
  · have hlen := h.length_encode
    rw [if_neg (by omega)]
    exact h.decodeFrom_encode 0

/-- The accepted lines are those of an even number of digits. -/
theorem exists_readLine_eq_ok_iff {t : Text} : (∃ stream, readLine t = .ok stream) ↔ IsHex t := by
  simp only [readLine_eq_ok_iff, exists_spells_iff]

/-- Every other line is rejected for its digits. -/
theorem exists_readLine_eq_error_iff {t : Text} :
    (∃ fault, readLine t = .error (.hex fault)) ↔ ¬IsHex t := by
  rw [← exists_readLine_eq_ok_iff, readLine]
  rcases decode (Utf8.encode t) with _ | _ <;> simp [Except.mapError]

/-! ### The first two lines decide -/

variable {t : Text}

/-- A text is accepted if its first two lines write streams, or if it is blank. -/
theorem read_eq_ok_iff {s : Streams} : read t = .ok s ↔
    (filledLines t = [] ∧ s = ⟨[], []⟩) ∨ ∃ first second rest,
      filledLines t = first :: second :: rest ∧ Spells s.instructions first ∧
        Spells s.data second := by
  rw [read]
  generalize filledLines t = lines
  refine ⟨fun h => ?_, ?_⟩
  · rcases lines with _ | ⟨first, _ | ⟨second, rest⟩⟩
    · exact .inl ⟨rfl, (Except.ok.inj h).symm⟩
    · obtain ⟨_, _, h⟩ := bind_eq_ok_iff.mp h
      exact absurd h (by simp)
    · obtain ⟨i, hi, h⟩ := bind_eq_ok_iff.mp h
      obtain ⟨d, hd, h⟩ := bind_eq_ok_iff.mp h
      rw [← Except.ok.inj h]
      exact .inr ⟨first, second, rest, rfl, readLine_eq_ok_iff.mp hi, readLine_eq_ok_iff.mp hd⟩
  · rintro (⟨rfl, rfl⟩ | ⟨first, second, rest, rfl, hi, hd⟩)
    · rfl
    · exact bind_eq_ok_iff.mpr ⟨_, readLine_eq_ok_iff.mpr hi,
        bind_eq_ok_iff.mpr ⟨_, readLine_eq_ok_iff.mpr hd, rfl⟩⟩

/-- A text is rejected for its digits if its first line is, or else its second. -/
theorem exists_read_eq_hex_iff : (∃ fault, read t = .error (.hex fault)) ↔
    ∃ first rest, filledLines t = first :: rest ∧
      (¬IsHex first ∨ IsHex first ∧ ∃ second back, rest = second :: back ∧ ¬IsHex second) := by
  rw [read]
  generalize filledLines t = lines
  refine ⟨?_, ?_⟩
  · rintro ⟨fault, h⟩
    rcases lines with _ | ⟨first, rest⟩
    · exact absurd h (by simp)
    · refine ⟨first, rest, rfl, ?_⟩
      rcases bind_eq_error_iff.mp h with h | ⟨i, hi, h⟩
      · exact .inl (exists_readLine_eq_error_iff.mp ⟨fault, h⟩)
      · refine .inr ⟨exists_readLine_eq_ok_iff.mp ⟨i, hi⟩, ?_⟩
        rcases rest with _ | ⟨second, back⟩
        · exact absurd h (by simp)
        · rcases bind_eq_error_iff.mp h with h | ⟨_, _, h⟩
          · exact ⟨second, back, rfl, exists_readLine_eq_error_iff.mp ⟨fault, h⟩⟩
          · exact absurd h (by simp)
  · rintro ⟨first, rest, rfl, hfirst | ⟨hfirst, second, back, rfl, hsecond⟩⟩
    · obtain ⟨fault, hfault⟩ := exists_readLine_eq_error_iff.mpr hfirst
      exact ⟨fault, bind_eq_error_iff.mpr (.inl hfault)⟩
    · obtain ⟨i, hi⟩ := exists_readLine_eq_ok_iff.mpr hfirst
      obtain ⟨fault, hfault⟩ := exists_readLine_eq_error_iff.mpr hsecond
      exact ⟨fault, bind_eq_error_iff.mpr
        (.inr ⟨i, hi, bind_eq_error_iff.mpr (.inl hfault)⟩)⟩

/-- A text of one good line lacks its data stream. -/
theorem read_eq_missing_iff : read t = .error (.missingStream .data) ↔
    ∃ line, filledLines t = [line] ∧ IsHex line := by
  have hline : ∀ line, readLine line ≠ .error (.missingStream .data) := by
    intro line
    rw [readLine]
    rcases decode (Utf8.encode line) with _ | _ <;> simp [Except.mapError]
  rw [read]
  generalize filledLines t = lines
  refine ⟨fun h => ?_, ?_⟩
  · rcases lines with _ | ⟨first, rest⟩
    · exact absurd h (by simp)
    · obtain ⟨i, hi, h⟩ := (bind_eq_error_iff.mp h).resolve_left (hline first)
      rcases rest with _ | ⟨second, rest⟩
      · exact ⟨first, rfl, exists_readLine_eq_ok_iff.mp ⟨i, hi⟩⟩
      · obtain ⟨_, _, h⟩ := (bind_eq_error_iff.mp h).resolve_left (hline second)
        exact absurd h (by simp)
  · rintro ⟨line, rfl, hhex⟩
    obtain ⟨i, hi⟩ := exists_readLine_eq_ok_iff.mpr hhex
    exact bind_eq_error_iff.mpr (.inr ⟨i, hi, rfl⟩)

end HexLines

end TwinRom
