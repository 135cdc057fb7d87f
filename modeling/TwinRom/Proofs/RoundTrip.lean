import TwinRom.Proofs.Images
import TwinRom.Proofs.JsonImages
import TwinRom.Proofs.TextFormats
import TwinRom.Rom.Transfer

/-!
# Images through files

Every format that can be read at all gives back what was written: the used bytes, or all bytes in
the formats that hold full streams (`Format.read_render`). The image that is loaded is therefore
the one that was written, or its trimmed form (`Image.load_render`), and the same holds for any
number of formats one after the other (`passThrough_eq`).

A file need not have been written in this way to be loaded. What is loaded from it is in a normal
form, though: it stays the same if it is written and loaded again (`load_normalises`).
-/

namespace TwinRom

/-! ## One format -/

/-- What a file in a format holds of an image. -/
def Format.streams (format : Format) (x : Image) : Streams :=
  if format.isFull then ⟨x.instructions.toList, x.data.toList⟩
  else ⟨x.usedInstructions, x.usedData⟩

/-- A text in a format is read from its bytes. -/
theorem Format.read_encode {format : Format} (h : format ≠ .bin) (t : Text) :
    format.read (Utf8.encode t) = format.readText t := by
  unfold Format.read
  split
  next => exact absurd rfl h
  next => rw [Utf8.decode_encode]

theorem Format.read_render {format : Format} (h : format ≠ .listing) (x : Image) :
    format.read (x.render format) = .ok (format.streams x) := by
  cases format with
  | table => exact (read_encode (by decide) _).trans (Table.read_render x)
  | markers => exact (read_encode (by decide) _).trans (Markers.read_render x)
  | hex => exact (read_encode (by decide) _).trans (HexLines.read_render x)
  | json => exact (read_encode (by decide) _).trans (JsonText.read_render x)
  | bin => exact Binary.read_render x
  | listing => exact absurd rfl h

/-- No format holds more bytes than a ROM. -/
theorem Format.length_streams_le (format : Format) (x : Image) :
    (format.streams x).instructions.length ≤ 256 ∧ (format.streams x).data.length ≤ 256 := by
  unfold Format.streams
  split
  · simp
  · simp [x.length_le]

namespace Image

theorem ofLoaded_streams (format : Format) (x : Image) :
    ofLoaded format (format.streams x) = if format.isFull then x.trimmed else x := by
  unfold ofLoaded Format.streams
  split
  next =>
    refine trimmed_eq_trimmed_iff.mpr ⟨?_, ?_⟩
    · exact fit_toList x.instructions
    · exact fit_toList x.data
  next => exact ofStreams_used x

/-- An image is loaded as it was written, or trimmed. -/
theorem load_render {format : Format} (h : format ≠ .listing) (x : Image) :
    load format (x.render format) = .ok (if format.isFull then x.trimmed else x) := by
  rw [load, Format.read_render h, ← ofLoaded_streams]
  rfl

theorem loadEvents_render {format : Format} (h : format ≠ .listing) (x : Image) :
    loadEvents format (x.render format) = [] := by
  have hle := format.length_streams_le x
  have hnot : ¬(256 < (format.streams x).instructions.length ∨
      256 < (format.streams x).data.length) := by omega
  rw [loadEvents, Format.read_render h]
  exact if_neg hnot

/-! ## Formats one after the other -/

/-- Writes an image in some formats one after the other, and goes on with what is loaded. -/
def passThrough (x : Image) (formats : List Format) : Except LoadError Image :=
  formats.foldlM (fun y format => load format (y.render format)) x

theorem passThrough_cons {format : Format} (h : format ≠ .listing) (x : Image)
    (formats : List Format) : x.passThrough (format :: formats) =
      (if format.isFull then x.trimmed else x).passThrough formats := by
  rw [passThrough, List.foldlM_cons, load_render h]
  rfl

/-- Passing through formats fails nowhere, and only full formats leave a trace. -/
theorem passThrough_eq_ok {formats : List Format} (h : .listing ∉ formats) (x : Image) :
    x.passThrough formats = .ok (if formats.any Format.isFull then x.trimmed else x) := by
  induction formats generalizing x with
  | nil => rfl
  | cons format formats ih =>
    have hne : format ≠ .listing := fun heq => h (heq ▸ List.mem_cons_self)
    have hrest : .listing ∉ formats := fun hmem => h (List.mem_cons_of_mem format hmem)
    rw [passThrough_cons hne, ih hrest, List.any_cons]
    cases format.isFull with
    | true => simp
    | false => simp

end Image

theorem Format.any_isFull_iff {formats : List Format} :
    formats.any Format.isFull = true ↔ .json ∈ formats ∨ .bin ∈ formats := by
  rw [List.any_eq_true]
  constructor
  · rintro ⟨format, hmem, hfull⟩
    cases format with
    | json => exact .inl hmem
    | bin => exact .inr hmem
    | _ => cases hfull
  · rintro (hmem | hmem)
    · exact ⟨_, hmem, rfl⟩
    · exact ⟨_, hmem, rfl⟩

/-- Images survive any chain of formats that can be read. Writing and loading never fails and never
cuts a stream, and all bytes stay as they are. The image stays the same as long as no format holds
full streams; once one does, it is the trimmed image. -/
theorem passThrough_eq (x : Image) {formats : List Format} (h : .listing ∉ formats) :
    (∃ y, x.passThrough formats = .ok y ∧
        y.instructions = x.instructions ∧ y.data = x.data ∧
        y = if .json ∈ formats ∨ .bin ∈ formats then x.trimmed else x) ∧
      ∀ front format back, formats = front ++ format :: back → ∃ y s,
        x.passThrough front = .ok y ∧ format.read (y.render format) = .ok s ∧
        s.instructions.length ≤ 256 ∧ s.data.length ≤ 256 ∧
        Image.loadEvents format (y.render format) = [] := by
  constructor
  · refine ⟨_, Image.passThrough_eq_ok h x, ?_, ?_, ?_⟩
    · split <;> rfl
    · split <;> rfl
    · simp only [Format.any_isFull_iff]
  · rintro front format back rfl
    have hfront : .listing ∉ front := fun hmem => h (List.mem_append_left _ hmem)
    have hformat : format ≠ .listing :=
      fun heq => h (List.mem_append_right _ (heq ▸ List.mem_cons_self))
    obtain ⟨hins, hdata⟩ := format.length_streams_le
      (if front.any Format.isFull then x.trimmed else x)
    exact ⟨_, _, Image.passThrough_eq_ok hfront x, Format.read_render hformat _, hins, hdata,
      Image.loadEvents_render hformat _⟩

/-- An image with bytes that look like end markers and a position of zeros at its end, through
every format that can be read. -/
theorem passThrough_eq_all :
    let x := Image.ofStreams [0xFF, 0xFE, 0x25] [0xFE, 0xFF, 2, 0, 0]
    let formats := [Format.table, .json, .markers, .bin, .hex]
    .listing ∉ formats ∧
      (∃ y, x.passThrough formats = .ok y ∧
        y.instructions = x.instructions ∧ y.data = x.data ∧
        y = if .json ∈ formats ∨ .bin ∈ formats then x.trimmed else x) ∧
      ∀ front format back, formats = front ++ format :: back → ∃ y s,
        x.passThrough front = .ok y ∧ format.read (y.render format) = .ok s ∧
        s.instructions.length ≤ 256 ∧ s.data.length ≤ 256 ∧
        Image.loadEvents format (y.render format) = [] := by
  intro x formats
  have h : Format.listing ∉ formats := by decide
  exact ⟨h, passThrough_eq x h⟩

/-! ## What can be loaded -/

namespace Image

variable {format : Format} {bytes : List UInt8} {x : Image}

/-- Loading is reading streams and making an image of them. -/
theorem load_eq_ok_iff : load format bytes = .ok x ↔
    ∃ s, format.read bytes = .ok s ∧ ofLoaded format s = x := by
  rw [load]
  cases format.read bytes <;> simp [Except.map]

theorem ne_listing_of_load (h : load format bytes = .ok x) : format ≠ .listing := by
  rintro rfl
  obtain ⟨s, hs, -⟩ := load_eq_ok_iff.mp h
  rw [Format.read] at hs
  · split at hs <;> cases hs
  · decide

/-- A file with full streams does not say how long the image is, so no position at its end is
taken to be in use unless something is there. -/
theorem trimmed_of_load (h : load format bytes = .ok x) (hfull : format.isFull = true) :
    x.trimmed = x := by
  obtain ⟨s, -, rfl⟩ := load_eq_ok_iff.mp h
  rw [ofLoaded, if_pos hfull, trimmed_trimmed]

/-- What is loaded is loaded again from what it is written as. -/
theorem load_render_of_load (h : load format bytes = .ok x) :
    load format (x.render format) = .ok x := by
  rw [load_render (ne_listing_of_load h)]
  split
  next hfull => rw [trimmed_of_load h hfull]
  next => rfl

theorem render_of_load_bin (h : load .bin bytes = .ok x) :
    bytes.length = 512 ∧ x.render .bin = bytes := by
  obtain ⟨s, hs, rfl⟩ := load_eq_ok_iff.mp h
  rw [Format.read, Binary.read] at hs
  split at hs
  next hlen =>
    obtain rfl := Except.ok.inj hs
    refine ⟨hlen, ?_⟩
    calc Binary.render (ofStreams (bytes.take 256) (bytes.drop 256)).trimmed
      _ = (fit (bytes.take 256)).toList ++ (fit (bytes.drop 256)).toList := rfl
      _ = bytes.take 256 ++ bytes.drop 256 := by
        rw [toList_fit (by simp [hlen]), toList_fit (by simp [hlen])]
      _ = bytes := List.take_append_drop 256 bytes
  next => cases hs

theorem exists_load_bin_iff : (∃ x, load .bin bytes = .ok x) ↔ bytes.length = 512 := by
  constructor
  · rintro ⟨x, hx⟩
    exact (render_of_load_bin hx).1
  · intro hlen
    exact ⟨_, load_eq_ok_iff.mpr ⟨_, if_pos hlen, rfl⟩⟩

end Image

/-- Loading normalises once. Whatever a file holds, the image that is loaded from it holds zeros
behind the positions in use, and writing it in the same format gives a file that is loaded as the
same image, so that the second file is written again as it is. A binary file is accepted if it has
512 bytes, and it is then the file that its image is written as. -/
theorem load_normalises (bytes : List UInt8) :
    (∀ format x, Image.load format bytes = .ok x →
        (∀ (p : Nat) (h : p < 256), x.length ≤ p → x.instructions[p] = 0 ∧ x.data[p] = 0) ∧
        Image.load format (x.render format) = .ok x ∧
        (Image.load format (x.render format)).map (fun y => y.render format) =
          .ok (x.render format)) ∧
      ((∃ x, Image.load .bin bytes = .ok x) ↔ bytes.length = 512) ∧
      ∀ x, Image.load .bin bytes = .ok x → x.render .bin = bytes := by
  refine ⟨fun format x h => ⟨x.padding, ?_, ?_⟩, Image.exists_load_bin_iff, fun x h => ?_⟩
  · exact Image.load_render_of_load h
  · rw [Image.load_render_of_load h]
    rfl
  · exact (Image.render_of_load_bin h).2

/-- A file with an end marker inside a stream, streams of different lengths and positions at the
end that hold zeros. -/
theorem load_normalises_markers :
    let bytes := Utf8.encode "\n FF 1 0xff\n2\t0 0 FE\n?".toList
    let x := Image.ofStreams [0xFF, 1] [2, 0, 0]
    Image.load .markers bytes = .ok x ∧ x.length = 3 ∧
      (∀ (p : Nat) (h : p < 256), x.length ≤ p → x.instructions[p] = 0 ∧ x.data[p] = 0) ∧
      Image.load .markers (x.render .markers) = .ok x ∧
      (Image.load .markers (x.render .markers)).map (fun y => y.render .markers) =
        .ok (x.render .markers) := by
  intro bytes x
  have h : Image.load .markers bytes = .ok x := Image.load_eq_ok_iff.mpr ⟨_, rfl, rfl⟩
  exact ⟨h, rfl, (load_normalises bytes).1 .markers x h⟩

end TwinRom
