import TwinRom.Proofs.Overwriting
import TwinRom.Proofs.StreamLines
import TwinRom.Proofs.TableLayout

/-!
# Formats are read back

What a reader finds in an image that was written in its format: the used bytes in lines of
digits (`HexLines.read_render`), in lines with end markers (`Markers.read_render`) and in tables
(`Table.read_render`), and all bytes in a binary image (`Binary.read_render`). A binary image can
also be written stream by stream, which gives the same bytes (`Binary.overwrite_nil`).
-/

namespace TwinRom

/-! ## Binary -/

/-- All bytes of an image are in the binary format, and read back. -/
theorem Binary.read_render (x : Image) :
    Binary.read (Binary.render x) = .ok ⟨x.instructions.toList, x.data.toList⟩ := by
  have hlen : x.instructions.toList.length = 256 := by simp
  rw [Binary.read, if_pos (Binary.length_render x), Binary.render, List.take_left' hlen,
    List.drop_left' hlen]

theorem Binary.overwrite_nil (x : Image) : overwrite x [] = render x := by
  have h := writesAt_writeAt.overwrite_eq x []
  rwa [List.drop_nil, List.append_nil] at h

/-! ## Two lines -/

/-- A text of two lines. -/
theorem lines_two {s t : Text} (hs : Text.IsLine s) (ht : Text.IsLine t) :
    Text.lines (s ++ '\n' :: (t ++ ['\n'])) = [s, t] := by
  rw [Text.lines_append_newline hs, Text.lines_append_newline ht, Text.lines_nil]

/-! ## Lines of digits -/

namespace HexLines

theorem spells_line : ∀ stream : List UInt8, Spells stream (line stream)
  | [] => .nil
  | b :: stream => by
    have hhigh := Text.div_lt_sixteen b
    have hlow : b.toNat % 16 < 16 := Nat.mod_lt _ (by decide)
    exact .cons (Text.isDigitOf_upperDigit hhigh hhigh) (Text.isDigitOf_upperDigit hlow hlow)
      (spells_line stream)

theorem isLine_line (stream : List UInt8) : Text.IsLine (line stream) := by
  intro c hc
  obtain ⟨b, -, hc⟩ := List.mem_flatMap.mp hc
  exact (Text.isWord_hexByte b).isLine c hc

theorem isWord_line {stream : List UInt8} (h : stream ≠ []) : Text.IsWord (line stream) := by
  refine ⟨?_, fun c hc => ?_⟩
  · obtain ⟨b, bs, rfl⟩ := List.exists_cons_of_ne_nil h
    exact List.append_ne_nil_of_left_ne_nil (List.cons_ne_nil _ _) _
  · obtain ⟨b, -, hc⟩ := List.mem_flatMap.mp hc
    exact (Text.isWord_hexByte b).visible c hc

/-- An image without positions has no filled line. -/
theorem filledLines_nil : filledLines (line [] ++ '\n' :: (line [] ++ ['\n'])) = [] := by
  rw [filledLines, lines_two (isLine_line []) (isLine_line [])]
  rfl

/-- Two rendered streams with bytes are the lines that count. -/
theorem filledLines_lines {s t : List UInt8} (hs : s ≠ []) (ht : t ≠ []) :
    filledLines (line s ++ '\n' :: (line t ++ ['\n'])) = [line s, line t] := by
  have hs' := isWord_line hs
  have ht' := isWord_line ht
  rw [filledLines, lines_two hs'.isLine ht'.isLine]
  simp [hs'.trim, ht'.trim, hs'.ne_nil, ht'.ne_nil]

/-- A rendered image is read back as its used bytes. -/
theorem read_render (x : Image) :
    read (render x) = .ok ⟨x.usedInstructions, x.usedData⟩ := by
  rw [read_eq_ok_iff, render]
  by_cases h : x.length = 0
  · have hins : x.usedInstructions = [] := List.length_eq_zero_iff.mp (by simp [h])
    have hdata : x.usedData = [] := List.length_eq_zero_iff.mp (by simp [h])
    rw [hins, hdata]
    exact .inl ⟨filledLines_nil, rfl⟩
  · have hins : x.usedInstructions ≠ [] := List.ne_nil_of_length_pos (by simp; omega)
    have hdata : x.usedData ≠ [] := List.ne_nil_of_length_pos (by simp; omega)
    exact .inr ⟨_, _, [], filledLines_lines hins hdata, spells_line _, spells_line _⟩

end HexLines

/-! ## Lines with end markers -/

namespace Markers

theorem spellsByte_field (b : UInt8) : SpellsByte b (field b) :=
  .signed (.inl rfl) (Text.writesNat_hexByte b)

theorem newline_not_mem_line (stream : List UInt8) (marker : UInt8) :
    '\n' ∉ line stream marker := by
  have hline : Text.IsLine (line stream marker) := by
    refine Text.forall_mem_intercalate (by decide) fun t ht => ?_
    obtain ⟨b, -, rfl⟩ := List.mem_map.mp ht
    exact (spellsByte_field b).isWord.isLine
  exact fun hmem => absurd (hline _ hmem) (by decide)

/-- A rendered line closes its stream with the marker. -/
theorem writesLine_line (stream : List UInt8) (marker : UInt8) :
    WritesLine marker stream (line stream marker) :=
  .closed (Text.Spaced.intercalate (fun b => .last (spellsByte_field b)) (stream ++ [marker]))

/-- A rendered image is read back as its used bytes, also if there are none. -/
theorem read_render (x : Image) :
    read (render x) = .ok ⟨x.usedInstructions, x.usedData⟩ := by
  have hlines : (render x).splitOn '\n' = [line x.usedInstructions Opcode.endOfInstructions,
      line x.usedData Opcode.endOfData, []] := by
    rw [render, List.splitOn_append_cons_self_of_not_mem (newline_not_mem_line _ _),
      List.splitOn_append_cons_self_of_not_mem (newline_not_mem_line _ _), List.splitOn_nil]
  refine read_of_writes ⟨?_, writesLine_line _ _, writesLine_line _ _⟩
  rw [hlines]
  exact .intro [] [] [[]] (by simp) (by simp)

end Markers

/-! ## Tables -/

namespace Table

/-! ### Rows -/

theorem flatten_rows (bytes : List UInt8) : (rows bytes).flatten = bytes := by
  fun_induction rows bytes with
  | case1 => rfl
  | case2 b bs ih => rw [List.flatten_cons, ih, List.take_append_drop]

theorem ne_nil_of_mem_rows {bytes row : List UInt8} (h : row ∈ rows bytes) : row ≠ [] := by
  fun_induction rows bytes with
  | case1 => cases h
  | case2 b bs ih =>
    rcases List.mem_cons.mp h with rfl | h
    · exact List.cons_ne_nil _ _
    · exact ih h

/-- Streams of one length have as many rows. -/
theorem length_rows_eq {s t : List UInt8} (h : s.length = t.length) :
    (rows s).length = (rows t).length := by
  fun_induction rows s generalizing t with
  | case1 =>
    obtain rfl : t = [] := List.length_eq_zero_iff.mp h.symm
    rw [rows]
  | case2 b bs ih =>
    obtain ⟨c, cs, rfl⟩ : ∃ c cs, t = c :: cs := List.exists_cons_of_length_eq_add_one h.symm
    have hdrop : ((b :: bs).drop 5).length = ((c :: cs).drop 5).length := by
      rw [List.length_drop, List.length_drop, h]
    rw [rows, List.length_cons, List.length_cons, ih hdrop]

/-! ### Boxes -/

/-- What stands in a box. -/
def content (row : List UInt8) : Text :=
  Text.padRight 19 ([' '].intercalate (row.map field))

/-- A field is padded with blanks, which do not matter. -/
theorem spaced_field (b : UInt8) : Text.Spaced SpellsByte [b] (field b) :=
  (Text.Spaced.last (.unsigned (Text.writesNat_decimal b.toNat))).gap_append (Text.isGap_blanks _)

/-- A box holds the bytes of its row. -/
theorem spaced_content (row : List UInt8) : Text.Spaced SpellsByte row (content row) :=
  (Text.Spaced.intercalate spaced_field row).append_gap (Text.isGap_blanks _)

/-- A box holds blanks and digits only. -/
theorem blank_or_isDigit_of_mem_content {row : List UInt8} :
    ∀ c ∈ content row, c = ' ' ∨ c.isDigit = true := by
  have hfield : ∀ b, ∀ c ∈ field b, c = ' ' ∨ c.isDigit = true := by
    intro b c hc
    rw [field, Text.padLeft, List.leftpad, List.mem_append] at hc
    exact hc.imp List.eq_of_mem_replicate Text.isDigit_of_mem_decimal
  intro c hc
  rw [content, Text.padRight, List.rightpad, List.mem_append] at hc
  rcases hc with hc | hc
  · refine Text.forall_mem_intercalate (P := fun c => c = ' ' ∨ c.isDigit = true) (.inl rfl)
      (fun t ht => ?_) c hc
    obtain ⟨b, -, rfl⟩ := List.mem_map.mp ht
    exact hfield b
  · exact .inl (List.eq_of_mem_replicate hc)

theorem isLine_content (row : List UInt8) : Text.IsLine (content row) := by
  intro c hc
  rcases blank_or_isDigit_of_mem_content c hc with rfl | h
  · decide
  · have := Text.toNat_of_isDigit h
    omega

/-- No bar stands within a box. -/
theorem bar_not_mem_content (row : List UInt8) : '|' ∉ content row := by
  intro hc
  rcases blank_or_isDigit_of_mem_content '|' hc with h | h
  · cases h
  · cases h

/-! ### Lines -/

/-- A line of a table without its line end. -/
def boxes (row : List UInt8 × List UInt8) : Text :=
  ['|'].intercalate [[], content row.1, List.replicate 4 ' ', content row.2, []]

theorem line_eq (row : List UInt8 × List UInt8) : line row = boxes row ++ ['\n'] := by
  simp [line, boxes, box, content, List.intercalate_cons_cons, List.intercalate_singleton]

theorem isLine_boxes (row : List UInt8 × List UInt8) : Text.IsLine (boxes row) := by
  refine Text.forall_mem_intercalate (by decide) fun t ht => ?_
  simp only [List.mem_cons, List.not_mem_nil, or_false] at ht
  rcases ht with rfl | rfl | rfl | rfl | rfl
  · exact Text.IsLine.nil
  · exact isLine_content row.1
  · exact Text.IsLine.blanks 4
  · exact isLine_content row.2
  · exact Text.IsLine.nil

/-- A line with two boxes writes a row, and the blank part between the boxes is skipped. -/
theorem writesRow_boxes {row : List UInt8 × List UInt8} (hne : row.1 ≠ [] ∧ row.2 ≠ []) :
    WritesRow ⟨row.1, row.2⟩ (boxes row) := by
  have hbar : ∀ t ∈ [[], content row.1, List.replicate 4 ' ', content row.2, []], '|' ∉ t := by
    simp [bar_not_mem_content]
  refine ⟨?_, hne, spaced_content row.1, spaced_content row.2⟩
  rw [boxes, List.splitOn_intercalate '|' hbar (List.cons_ne_nil _ _)]
  -- of the five parts only the two boxes are not blank
  exact .intro [[]] [List.replicate 4 ' '] [[]] (by decide) (by decide)

theorem isLine_header : Text.IsLine header := by decide

/-- A rendered table has a heading and one line for each row. -/
theorem lines_render (x : Image) : Text.lines (render x) =
    header :: ((rows x.usedInstructions).zip (rows x.usedData)).map boxes := by
  have hline : line = fun row => boxes row ++ ['\n'] := funext line_eq
  rw [render, Text.lines_append_newline isLine_header, hline,
    Text.lines_flatMap fun row _ => isLine_boxes row]

/-- The lines with boxes lay out the rows. -/
theorem lays_boxes {table : List (List UInt8 × List UInt8)}
    (h : ∀ row ∈ table, row.1 ≠ [] ∧ row.2 ≠ []) :
    Lays (table.map fun row => ⟨row.1, row.2⟩) (table.map boxes) := by
  induction table with
  | nil => exact .nil
  | cons row table ih =>
    obtain ⟨hrow, htable⟩ := List.forall_mem_cons.mp h
    exact .row (writesRow_boxes hrow) (ih htable)

/-- A rendered table is read back as the used bytes. -/
theorem read_render (x : Image) :
    read (render x) = .ok ⟨x.usedInstructions, x.usedData⟩ := by
  have hlen : (rows x.usedInstructions).length = (rows x.usedData).length :=
    length_rows_eq (by simp)
  have hrows : ∀ row ∈ (rows x.usedInstructions).zip (rows x.usedData),
      row.1 ≠ [] ∧ row.2 ≠ [] := by
    intro row hrow
    obtain ⟨h₁, h₂⟩ := List.of_mem_zip hrow
    exact ⟨ne_nil_of_mem_rows h₁, ne_nil_of_mem_rows h₂⟩
  have hheader : IsDigitFree header := by decide
  have hlays := (lays_boxes hrows).other hheader
  have hins := List.map_fst_zip (Nat.le_of_eq hlen)
  have hdata := List.map_snd_zip (Nat.le_of_eq hlen.symm)
  rw [read_of_lays_lines (lines_render x ▸ hlays), List.flatMap_def, List.flatMap_def,
    List.map_map, List.map_map]
  show Except.ok (Streams.mk (List.map Prod.fst _).flatten (List.map Prod.snd _).flatten) = _
  rw [hins, hdata, flatten_rows, flatten_rows]

end Table

end TwinRom
