import TwinRom.Proofs.Digits
import TwinRom.Proofs.Outcome
import TwinRom.Proofs.Spacing
import TwinRom.Rom.Table

/-!
# Tables in any layout

The texts that lay out a table, however wide its rows are and whatever the spacing. A row is written
as a line of parts between bars (`Table.WritesRow`): the first two that are not blank hold its
bytes, and what stands behind them does not count. Lines without a digit may stand anywhere
(`Table.Lays`).

Reading finds the bytes of one row on its line (`Table.readLine_of_writesRow`) and hence those of
all rows in a table (`Table.read_of_lays`).
-/

namespace TwinRom.Table

/-! ## Bytes -/

/-- The spellings of a byte: decimal digits, perhaps with a plus sign in front. -/
inductive SpellsByte (b : UInt8) : Text → Prop where
  | unsigned {ds : Text} (h : Text.WritesNat 10 b.toNat ds) : SpellsByte b ds
  | plus {ds : Text} (h : Text.WritesNat 10 b.toNat ds) : SpellsByte b ('+' :: ds)

/-- However a byte is spelled, it is read. -/
theorem SpellsByte.byte?_eq {b : UInt8} {w : Text} (h : SpellsByte b w) :
    Text.byte? 10 w = some b := by
  rcases h with h | h
  · exact Text.byte?_of_writesNat h
  · exact Text.byte?_plus h

theorem SpellsByte.isWord {b : UInt8} {w : Text} (h : SpellsByte b w) : Text.IsWord w := by
  rcases h with h | h
  · exact h.isWord
  · exact ⟨List.cons_ne_nil _ _, List.forall_mem_cons.mpr ⟨by simp, h.isWord.visible⟩⟩

theorem exists_isDigit {n : Nat} {ds : Text} (h : Text.WritesNat 10 n ds) :
    ∃ c ∈ ds, c.isDigit = true := by
  have hdigit : ∀ v < 10, (Text.upperDigit v).isDigit = true ∧
      (Text.lowerDigit v).isDigit = true := by
    decide
  obtain ⟨c, hc⟩ := List.exists_mem_of_ne_nil ds h.ne_nil
  obtain ⟨v, hv⟩ := h.isDigitOf_of_mem c hc
  refine ⟨c, hc, ?_⟩
  rcases hv.spelled with rfl | rfl
  · exact (hdigit v hv.lt_radix).1
  · exact (hdigit v hv.lt_radix).2

/-- A byte has a digit, so that its line is not taken for a heading. -/
theorem SpellsByte.exists_isDigit {b : UInt8} {w : Text} (h : SpellsByte b w) :
    ∃ c ∈ w, c.isDigit = true := by
  rcases h with h | h
  · exact Table.exists_isDigit h
  · obtain ⟨c, hc, hdigit⟩ := Table.exists_isDigit h
    exact ⟨c, List.mem_cons_of_mem _ hc, hdigit⟩

/-- The number of a line shows in errors only. -/
theorem readPart_eq_ok_iff {n : Nat} {part : Text} {bytes : List UInt8} :
    readPart n part = .ok bytes ↔ (Text.words part).map (Text.byte? 10) = bytes.map some := by
  refine mapM_eq_ok_iff_map_eq fun w b => ?_
  rcases Text.byte? 10 w with _ | _ <;> simp

/-- The bytes of a part are read, whatever the blanks. -/
theorem readPart_of_spaced {bytes : List UInt8} {part : Text}
    (h : Text.Spaced SpellsByte bytes part) (n : Nat) :
    readPart n (Text.trim part) = .ok bytes := by
  rw [readPart_eq_ok_iff, Text.words_trim]
  exact h.map_words (fun _ _ => SpellsByte.isWord) fun _ _ => SpellsByte.byte?_eq

/-! ## Rows -/

/-- The lines that write a row: its bytes stand in the first two parts between bars that are not
blank. -/
inductive WritesRow (row : Streams) (t : Text) : Prop where
  | intro {instructions data : Text}
      (hparts : Text.FirstTwo instructions data (t.splitOn '|'))
      (hne : row.instructions ≠ [] ∧ row.data ≠ [])
      (hinstructions : Text.Spaced SpellsByte row.instructions instructions)
      (hdata : Text.Spaced SpellsByte row.data data)

/-- The parts that count are those that are not blank. -/
theorem parts_eq (t : Text) : parts t = ((t.splitOn '|').filter Text.isFilled).map Text.trim := by
  rw [parts, List.filter_map]
  rfl

/-- The bytes of a row are read from its line. -/
theorem readLine_of_writesRow {row : Streams} {t : Text} (h : WritesRow row t) (n : Nat) :
    readLine n t = .ok row := by
  obtain ⟨hparts, ⟨hne, hne'⟩, hinstructions, hdata⟩ := h
  have hdigit : t.any Char.isDigit = true := by
    obtain ⟨b, w, hw, hsub⟩ := hinstructions.exists_item hne
    obtain ⟨c, hc, hdigit⟩ := hw.exists_isDigit
    have ht : ['|'].intercalate (t.splitOn '|') = t := List.intercalate_splitOn '|'
    exact List.any_eq_true.mpr
      ⟨c, ht ▸ Text.mem_intercalate_of_mem hparts.mem.1 (hsub hc), hdigit⟩
  have hfilled : ∀ {bytes : List UInt8} {part : Text}, Text.Spaced SpellsByte bytes part →
      bytes ≠ [] → Text.isFilled part = true := fun h =>
    h.isFilled_eq (fun _ _ => SpellsByte.isWord) fun _ _ => SpellsByte.byte?_eq
  obtain ⟨back, hback⟩ :=
    hparts.filter_isFilled (hfilled hinstructions hne) (hfilled hdata hne')
  rw [readLine, if_pos hdigit, parts_eq, hback]
  exact bind_eq_ok_iff.mpr ⟨_, readPart_of_spaced hinstructions n,
    bind_eq_ok_iff.mpr ⟨_, readPart_of_spaced hdata n, rfl⟩⟩

/-- A text without a digit. -/
def IsDigitFree (t : Text) : Prop := ∀ c ∈ t, c.isDigit = false

instance (t : Text) : Decidable (IsDigitFree t) :=
  -- over the text, not over all characters
  decidable_of_iff (t.any Char.isDigit = false) (by simp [IsDigitFree])

/-- A line without a digit gives no bytes, whatever bars it has. -/
theorem readLine_of_isDigitFree {t : Text} (h : IsDigitFree t) (n : Nat) :
    readLine n t = .ok ⟨[], []⟩ := by
  have hany : ¬t.any Char.isDigit = true := by simpa [IsDigitFree] using h
  rw [readLine, if_neg hany]

/-! ## Tables -/

/-- The lines that lay out some rows, with others without a digit before, between and behind
them. -/
inductive Lays : List Streams → List Text → Prop where
  | nil : Lays [] []
  | other {line : Text} {rows : List Streams} {lines : List Text}
      (hline : IsDigitFree line) (h : Lays rows lines) : Lays rows (line :: lines)
  | row {row : Streams} {line : Text} {rows : List Streams} {lines : List Text}
      (hline : WritesRow row line) (h : Lays rows lines) : Lays (row :: rows) (line :: lines)

/-- Every line is read: one with a row gives its bytes, and any other gives none. -/
theorem Lays.map_readLine {rows : List Streams} {lines : List Text} (h : Lays rows lines) :
    ∃ found : List Streams, lines.map (readLine 0) = found.map .ok ∧
      found.flatMap Streams.instructions = rows.flatMap Streams.instructions ∧
      found.flatMap Streams.data = rows.flatMap Streams.data := by
  induction h with
  | nil => exact ⟨[], by simp⟩
  | other hline _ ih =>
    obtain ⟨found, hfound, hinstructions, hdata⟩ := ih
    refine ⟨⟨[], []⟩ :: found, ?_, hinstructions, hdata⟩
    rw [List.map_cons, List.map_cons, readLine_of_isDigitFree hline, hfound]
  | @row row _ _ _ hline _ ih =>
    obtain ⟨found, hfound, hinstructions, hdata⟩ := ih
    refine ⟨row :: found, ?_, congrArg (row.instructions ++ ·) hinstructions,
      congrArg (row.data ++ ·) hdata⟩
    rw [List.map_cons, List.map_cons, readLine_of_writesRow hline, hfound]

/-- What is read from a line does not depend on its number. -/
theorem readLine_congr (m n : Nat) (t : Text) (s : Streams) (h : readLine m t = .ok s) :
    readLine n t = .ok s := by
  have hpart : ∀ {part : Text} {bytes : List UInt8}, readPart m part = .ok bytes →
      readPart n part = .ok bytes := fun h => readPart_eq_ok_iff.mpr (readPart_eq_ok_iff.mp h)
  unfold readLine at h ⊢
  split at h
  next hdigit =>
    rw [if_pos hdigit]
    split at h
    next =>
      obtain ⟨i, hi, h⟩ := bind_eq_ok_iff.mp h
      obtain ⟨d, hd, h⟩ := bind_eq_ok_iff.mp h
      exact bind_eq_ok_iff.mpr ⟨i, hpart hi, bind_eq_ok_iff.mpr ⟨d, hpart hd, h⟩⟩
    next => exact h
  next hdigit => rwa [if_neg hdigit]

theorem read_eq_ok {t : Text} {found : List Streams}
    (h : (Text.lines t).map (readLine 0) = found.map .ok) :
    read t = .ok ⟨found.flatMap Streams.instructions, found.flatMap Streams.data⟩ :=
  bind_eq_ok_iff.mpr ⟨found, mapM_zipIdx_eq_ok readLine_congr h 1, rfl⟩

/-- The rows of a table follow each other in both streams. -/
theorem read_of_lays_lines {rows : List Streams} {t : Text} (h : Lays rows (Text.lines t)) :
    read t = .ok ⟨rows.flatMap Streams.instructions, rows.flatMap Streams.data⟩ := by
  obtain ⟨found, hfound, hinstructions, hdata⟩ := h.map_readLine
  rw [← hinstructions, ← hdata]
  exact read_eq_ok hfound

/-- What stands behind the last bar gets longer by a character behind the text. -/
theorem splitOn_concat {sep c : Char} (hc : c ≠ sep) (t : Text) : ∃ front last,
    t.splitOn sep = front ++ [last] ∧ (t ++ [c]).splitOn sep = front ++ [last ++ [c]] := by
  induction t with
  | nil => exact ⟨[], [], rfl, List.splitOn_eq_singleton (by simpa using hc.symm)⟩
  | cons d t ih =>
    obtain ⟨front, last, ht, htc⟩ := ih
    rw [List.cons_append, List.splitOn_cons_eq_if_modifyHead, List.splitOn_cons_eq_if_modifyHead,
      ht, htc]
    split
    next => exact ⟨[] :: front, last, rfl, rfl⟩
    next =>
      rcases front with _ | ⟨first, front⟩
      · exact ⟨[], d :: last, rfl, rfl⟩
      · exact ⟨(d :: first) :: front, last, rfl, rfl⟩

/-- A carriage return at the end of a line is blank. -/
theorem readLine_concat_return (n : Nat) (t : Text) :
    readLine n (t ++ ['\r']) = readLine n t := by
  obtain ⟨front, last, ht, htr⟩ := splitOn_concat (show '\r' ≠ '|' by decide) t
  have hparts : parts (t ++ ['\r']) = parts t := by
    rw [parts, parts, ht, htr, List.map_append, List.map_append, List.map_singleton,
      List.map_singleton, Text.trim_concat rfl]
  have hany : (t ++ ['\r']).any Char.isDigit = t.any Char.isDigit := by simp
  rw [readLine, readLine, hparts, hany]

/-- All rows of a table are read, in order. -/
theorem read_of_lays {rows : List Streams} {t : Text} (h : Lays rows (t.splitOn '\n')) :
    read t = .ok ⟨rows.flatMap Streams.instructions, rows.flatMap Streams.data⟩ := by
  obtain ⟨found, hfound, hinstructions, hdata⟩ := h.map_readLine
  rw [← hinstructions, ← hdata]
  rcases Text.map_lines (readLine_concat_return 0) t with hlines | hlines
  · exact read_eq_ok (hlines.symm.trans hfound)
  · -- the empty line at the end has no bytes
    rw [hlines] at hfound
    obtain ⟨front, back, rfl, hfront, hback⟩ := List.map_eq_append_iff.mp hfound.symm
    have hempty : readLine 0 [] = .ok ⟨[], []⟩ := readLine_of_isDigitFree (by decide) 0
    obtain ⟨s, rfl, hs⟩ := List.map_eq_singleton_iff.mp hback
    obtain rfl : s = ⟨[], []⟩ := Except.ok.inj (hs.trans hempty)
    simpa using read_eq_ok hfront.symm

end TwinRom.Table
