import TwinRom.Proofs.RoundTrip

/-!
# Files that were not written here

What is loaded from a text depends on the bytes it holds and not on how they are laid out. A table
may have rows of any width, any spacing and any lines without digits around them
(`load_table_of_lays`). Bytes between end markers may be spelled with zeros in front, in either case
and with or without their sign, and no byte of a stream is mistaken for its marker
(`load_markers_of_writes`). The members of a JSON object may come in either order, and there may be
blanks between all tokens (`load_json_of_spaced`).

Lines of digits leave no such choice. It is said for every text whether it is accepted and, if not,
for which reason (`load_hex_iff`).
-/

namespace TwinRom

namespace Image

theorem load_encode {format : Format} (h : format ≠ .bin) (t : Text) :
    load format (Utf8.encode t) = (format.readText t).map (ofLoaded format) := by
  rw [load, Format.read_encode h]

theorem load_encode_of_readText {format : Format} {t : Text} {s : Streams} (h : format ≠ .bin)
    (hread : format.readText t = .ok s) :
    load format (Utf8.encode t) = .ok (ofLoaded format s) := by
  rw [load_encode h, hread, Except.map]

theorem load_encode_eq_error_iff {format : Format} {t : Text} {e : LoadError} (h : format ≠ .bin) :
    load format (Utf8.encode t) = .error e ↔ format.readText t = .error e := by
  rw [load_encode h]
  rcases format.readText t with _ | _ <;> simp [Except.map]

end Image

/-! ## Tables -/

/-- A table is loaded as all its bytes in order, whatever its layout. Each of the two parts of a row
may have any number of bytes but none. -/
theorem load_table_of_lays {rows : List Streams} {t : Text}
    (h : Table.Lays rows (t.splitOn '\n')) :
    Image.load .table (Utf8.encode t) = .ok
      (Image.ofStreams (rows.flatMap Streams.instructions) (rows.flatMap Streams.data)) := by
  have hread : Format.readText .table t = .ok _ := Table.read_of_lays h
  rw [Image.load_encode_of_readText (by decide) hread]
  rfl

/-- Two rows of unequal parts, with blank parts, signs, zeros in front, blanks of several kinds,
text behind the data and lines without digits. -/
theorem load_table_of_lays_unequal :
    let rows : List Streams := [⟨[5, 72], [4]⟩, ⟨[255], [0, 9, 7]⟩]
    let t := "Instr | Data\n|\t| +5\u2003072 | |004|9 x|\r\n\n| - |\r\n\u00a0255 | 0 9\t+07".toList
    Table.Lays rows (t.splitOn '\n') ∧
      Image.load .table (Utf8.encode t) = .ok (Image.ofStreams [5, 72, 255] [4, 0, 9, 7]) := by
  intro rows t
  have hfirst : Table.WritesRow ⟨[5, 72], [4]⟩ "|\t| +5\u2003072 | |004|9 x|\r".toList :=
    ⟨.intro ["".toList, "\t".toList] [" ".toList] ["9 x".toList, "\r".toList] (by decide)
        (by decide), by decide,
      .blank rfl <| .item (w := "+5".toList) (.plus (by decide)) rfl <|
        .item (w := "072".toList) (.unsigned (by decide)) rfl .nil,
      .last (w := "004".toList) (.unsigned (by decide))⟩
  have hsecond : Table.WritesRow ⟨[255], [0, 9, 7]⟩ "\u00a0255 | 0 9\t+07".toList :=
    ⟨.intro [] [] [] (by decide) (by decide), by decide,
      .blank rfl <| .item (w := "255".toList) (.unsigned (by decide)) rfl .nil,
      .blank rfl <| .item (w := "0".toList) (.unsigned (by decide)) rfl <|
        .item (w := "9".toList) (.unsigned (by decide)) rfl <|
        .last (w := "+07".toList) (.plus (by decide))⟩
  have hlines : t.splitOn '\n' = ["Instr | Data".toList,
      "|\t| +5\u2003072 | |004|9 x|\r".toList, "".toList, "| - |\r".toList,
      "\u00a0255 | 0 9\t+07".toList] := by
    decide
  have hlays : Table.Lays rows (t.splitOn '\n') := by
    rw [hlines]
    exact .other (by decide) <| .row hfirst <| .other (by decide) <| .other (by decide) <|
      .row hsecond .nil
  have hinstructions : rows.flatMap Streams.instructions = [5, 72, 255] := rfl
  have hdata : rows.flatMap Streams.data = [4, 0, 9, 7] := rfl
  rw [← hinstructions, ← hdata]
  exact ⟨hlays, load_table_of_lays hlays⟩

/-! ## End markers -/

/-- Two streams are loaded however their bytes are spelled. Only the marker behind a stream is taken
off, and it may be missing if the stream does not end in the same byte. -/
theorem load_markers_of_writes {s : Streams} {t : Text} (h : Markers.Writes s (t.splitOn '\n')) :
    Image.load .markers (Utf8.encode t) = .ok (Image.ofStreams s.instructions s.data) := by
  have hread : Format.readText .markers t = .ok s := Markers.read_of_writes h
  exact Image.load_encode_of_readText (by decide) hread

/-- A stream that ends in its own marker, and one without a marker that ends in the other one. -/
theorem load_markers_of_writes_ends :
    let s : Streams := ⟨[0x2F, 0xFF], [1, 0xFF]⟩
    let t := " \n0x2f\t00FF 0Xff\r\n\u2003\n01 ff\n? 0x".toList
    Markers.Writes s (t.splitOn '\n') ∧
      Image.load .markers (Utf8.encode t) = .ok (Image.ofStreams s.instructions s.data) := by
  intro s t
  have hfirst : Markers.WritesLine 0xFF [0x2F, 0xFF] "0x2f\t00FF 0Xff\r".toList :=
    .closed <| .item (w := "0x2f".toList) (.signed (.inl rfl) (by decide)) rfl <|
      .item (w := "00FF".toList) (.plain (by decide)) rfl <|
      .item (w := "0Xff".toList) (.signed (.inr rfl) (by decide)) rfl .nil
  have hsecond : Markers.WritesLine 0xFE [1, 0xFF] "01 ff".toList :=
    .unclosed (by decide) (by decide) <| .item (w := "01".toList) (.plain (by decide)) rfl <|
      .last (w := "ff".toList) (.plain (by decide))
  have hwrites : Markers.Writes s (t.splitOn '\n') :=
    ⟨.intro [" ".toList] ["\u2003".toList] ["? 0x".toList] (by decide) (by decide), hfirst, hsecond⟩
  exact ⟨hwrites, load_markers_of_writes hwrites⟩

/-! ## Lines of digits -/

theorem load_hex_eq_ok_iff {t : Text} {x : Image} :
    Image.load .hex (Utf8.encode t) = .ok x ↔
      (HexLines.filledLines t = [] ∧ x = Image.ofStreams [] []) ∨
        ∃ first second rest instructions data,
          HexLines.filledLines t = first :: second :: rest ∧
            HexLines.Spells instructions first ∧ HexLines.Spells data second ∧
            x = Image.ofStreams instructions data := by
  have hload : Image.load .hex (Utf8.encode t) = .ok x ↔
      ∃ s, HexLines.read t = .ok s ∧ Image.ofStreams s.instructions s.data = x := by
    rw [Image.load_eq_ok_iff, Format.read_encode (by decide)]
    exact exists_congr fun s => Iff.rfl
  rw [hload]
  constructor
  · rintro ⟨s, hs, rfl⟩
    rcases HexLines.read_eq_ok_iff.mp hs with ⟨hlines, rfl⟩ | ⟨first, second, rest, hlines, hi, hd⟩
    · exact .inl ⟨hlines, rfl⟩
    · exact .inr ⟨first, second, rest, _, _, hlines, hi, hd, rfl⟩
  · rintro (⟨hlines, rfl⟩ | ⟨first, second, rest, i, d, hlines, hi, hd, rfl⟩)
    · exact ⟨⟨[], []⟩, HexLines.read_eq_ok_iff.mpr (.inl ⟨hlines, rfl⟩), rfl⟩
    · exact ⟨⟨i, d⟩,
        HexLines.read_eq_ok_iff.mpr (.inr ⟨first, second, rest, hlines, hi, hd⟩), rfl⟩

/-- A text is loaded exactly if it has no filled line, which gives the empty image, or if its first
two filled lines are digits in pairs, which gives the bytes that they spell. The digits are at fault
if those of the first line are not in pairs, or those of the second if the first is well formed, and
a stream is missing if the only line is well formed. -/
theorem load_hex_iff (t : Text) :
    let lines := HexLines.filledLines t
    let loaded := Image.load .hex (Utf8.encode t)
    (∀ x, loaded = .ok x ↔ (lines = [] ∧ x = Image.ofStreams [] []) ∨
        ∃ first second rest instructions data, lines = first :: second :: rest ∧
          HexLines.Spells instructions first ∧ HexLines.Spells data second ∧
          x = Image.ofStreams instructions data) ∧
      ((∃ x, loaded = .ok x) ↔ lines = [] ∨ ∃ first second rest, lines = first :: second :: rest ∧
        HexLines.IsHex first ∧ HexLines.IsHex second) ∧
      ((∃ fault, loaded = .error (.hex fault)) ↔ ∃ first rest, lines = first :: rest ∧
        (¬HexLines.IsHex first ∨ HexLines.IsHex first ∧
          ∃ second back, rest = second :: back ∧ ¬HexLines.IsHex second)) ∧
      (loaded = .error (.missingStream .data) ↔
        ∃ line, lines = [line] ∧ HexLines.IsHex line) := by
  intro lines loaded
  refine ⟨fun x => load_hex_eq_ok_iff, ⟨?_, ?_⟩, ?_, ?_⟩
  · rintro ⟨x, hx⟩
    rcases load_hex_eq_ok_iff.mp hx with
      ⟨hlines, -⟩ | ⟨first, second, rest, i, d, hlines, hi, hd, -⟩
    · exact .inl hlines
    · exact .inr ⟨first, second, rest, hlines, hi.isHex, hd.isHex⟩
  · rintro (hlines | ⟨first, second, rest, hlines, hfirst, hsecond⟩)
    · exact ⟨_, load_hex_eq_ok_iff.mpr (.inl ⟨hlines, rfl⟩)⟩
    · obtain ⟨i, hi⟩ := hfirst.exists_spells
      obtain ⟨d, hd⟩ := hsecond.exists_spells
      exact ⟨_, load_hex_eq_ok_iff.mpr (.inr ⟨first, second, rest, i, d, hlines, hi, hd, rfl⟩)⟩
  · rw [← HexLines.exists_read_eq_hex_iff]
    exact exists_congr fun fault => Image.load_encode_eq_error_iff (by decide)
  · rw [← HexLines.read_eq_missing_iff]
    exact Image.load_encode_eq_error_iff (by decide)

/-! ## JSON -/

/-- A JSON text that holds two streams is loaded as the image of them without its empty end,
whatever its layout. -/
theorem load_json_of_spaced {s : Streams} {words : List Text} {t : Text}
    (hwords : Json.WordsOf s words) (h : Json.Spaced words t) :
    Image.load .json (Utf8.encode t) = .ok (Image.ofStreams s.instructions s.data).trimmed := by
  have hread : Format.readText .json t = .ok s := JsonText.read_of_spaced hwords h
  exact Image.load_encode_of_readText (by decide) hread

/-- An object with its data first, an escape in a key, blanks of all kinds and zeros at the end. -/
theorem load_json_of_spaced_data_first :
    let s : Streams := ⟨[1, 0, 255, 0, 0], [7]⟩
    let key := "\\u0069nstructions".toList
    let words := ['\x7b'] :: (Json.memberWords "data".toList s.data ++
      [','] :: (Json.memberWords key s.instructions ++ [['\x7d']]))
    let t := "\r\x7b \"data\" :[ 7\t],\n\"\\u0069nstructions\": [1,0 ,255, 0,0]\x7d\n".toList
    Json.WordsOf s words ∧ Json.Spaced words t ∧
      Image.load .json (Utf8.encode t) = .ok (Image.ofStreams s.instructions s.data).trimmed ∧
      (Image.ofStreams s.instructions s.data).trimmed.length = 3 := by
  intro s key words t
  have hkey : Json.SpellsKey Json.Field.data.name.toList "data".toList := .self (by decide)
  have hkey' : Json.SpellsKey Json.Field.instructions.name.toList
      ('\\' :: 'u' :: ("0069".toList ++ "nstructions".toList)) :=
    .code (by decide) rfl (.self (by decide))
  have hwords : Json.WordsOf s words := .object (by decide) hkey hkey'
  have hspaced : Json.Spaced words t :=
    .blank rfl <| .word ['\x7b'] <| .blank rfl <| .word _ <| .blank rfl <| .word [':'] <|
      .word ['['] <| .blank rfl <| .word ['7'] <| .blank rfl <| .word [']'] <| .word [','] <|
      .blank rfl <| .word _ <| .word [':'] <| .blank rfl <| .word ['['] <| .word ['1'] <|
      .word [','] <| .word ['0'] <| .blank rfl <| .word [','] <| .word ['2', '5', '5'] <|
      .word [','] <| .blank rfl <| .word ['0'] <| .word [','] <| .word ['0'] <| .word [']'] <|
      .word ['\x7d'] <| .blank rfl .nil
  exact ⟨hwords, hspaced, load_json_of_spaced hwords hspaced, by decide +kernel⟩

end TwinRom
