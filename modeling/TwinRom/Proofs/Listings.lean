import TwinRom.Proofs.Digits
import TwinRom.Proofs.Images
import TwinRom.Rom.Listing

/-!
# Listings taken apart

A listing is written for a reader and no loader takes it, but its columns have fixed widths and its
remarks hold no line ends. So its lines are a header and one row for each used position
(`Listing.lines_render`), and each row can be taken apart again (`Listing.entry?_row`). The rows of
a listing say what its image holds (`Listing.entries_render`), and two images with one listing are
the same (`listing_eq_iff`).
-/

namespace TwinRom

/-! ## Remarks -/

theorem Opcode.mem_of_describe? {opcode : UInt8} {description : String}
    (h : describe? opcode = some description) : (opcode, description) ∈ descriptions := by
  obtain ⟨front, back, heq, -⟩ := List.lookup_eq_some_iff.mp h
  rw [heq]
  exact List.mem_append_right front List.mem_cons_self

theorem AluFunction.mem_all (f : AluFunction) : f ∈ all := by
  cases f <;> decide

namespace Listing

/-- The remarks on opcodes that are not reserved. -/
def remarks : List String :=
  Opcode.descriptions.map Prod.snd ++ "load r5 (unknown alu function)" ::
    AluFunction.all.map fun function => s!"load r5 ({function.name})"

/-- What is said about a defined opcode is one of finitely many remarks. -/
theorem remark_mem_remarks {opcode : UInt8} {description : String}
    (h : Opcode.describe? opcode = some description) (data : UInt8) :
    remark opcode data ∈ remarks := by
  rw [remark, h]
  simp only
  split
  next hload =>
    subst hload
    obtain rfl : "load r5" = description := Option.some.inj h
    refine List.mem_append_right _ ?_
    cases AluFunction.ofSelector? data with
    | none => exact List.mem_cons_self
    | some function =>
      exact List.mem_cons_of_mem _ (List.mem_map_of_mem (AluFunction.mem_all function))
  next => exact List.mem_append_left _ (List.mem_map_of_mem (Opcode.mem_of_describe? h))

/-- What is said about any other opcode. -/
theorem remark_of_describe?_eq_none {opcode : UInt8} (h : Opcode.describe? opcode = none)
    (data : UInt8) : remark opcode data = "reserved" := by
  rw [remark, h]

theorem isLine_remark (opcode data : UInt8) : Text.IsLine (remark opcode data).toList := by
  have hall : ∀ r ∈ "reserved" :: remarks, Text.IsLine r.toList := by decide
  cases h : Opcode.describe? opcode with
  | none =>
    rw [remark_of_describe?_eq_none h]
    exact hall _ List.mem_cons_self
  | some description => exact hall _ (List.mem_cons_of_mem _ (remark_mem_remarks h data))

/-! ## Rows -/

/-- A row of a listing stays on its line. -/
theorem isLine_row (position : Nat) (opcode data : UInt8) :
    Text.IsLine (row position opcode data) := by
  have hpad : Text.IsLine (Text.padLeft 3 (Text.decimal position)) :=
    (Text.IsLine.blanks _).append (Text.isWord_decimal position).isLine
  exact (((((hpad.append (.blanks 2)).append (Text.isWord_hexByte opcode).isLine).append
    (.blanks 2)).append (Text.isWord_hexByte data).isLine).append (.blanks 4)).append
    (isLine_remark opcode data)

/-- The lines of a listing: a header and one row for each used position. -/
theorem lines_render (x : Image) : Text.lines (render x) =
    header :: (List.range x.length).map fun p => row p (x.opcodeAt p) (x.dataAt p) := by
  have hheader : Text.IsLine header := by decide
  rw [render, Text.lines_append_newline hheader, x.zipIdx_used, List.flatMap_map,
    Text.lines_flatMap fun p _ => isLine_row p (x.opcodeAt p) (x.dataAt p)]

end Listing

/-! ## Columns -/

namespace Text

/-- A number below a thousand takes three columns. -/
theorem length_padLeft_decimal {n : Nat} (h : n < 1000) : (padLeft 3 (decimal n)).length = 3 := by
  have hlen : (Nat.toDigits 10 n).length ≤ 3 :=
    (Nat.length_toDigits_le_iff (by decide) (by decide)).mpr h
  rw [padLeft, List.length_leftpad, decimal, Nat.max_eq_left hlen]

/-- A padded number can be trimmed to the number. -/
theorem trim_padLeft_decimal (width n : Nat) : trim (padLeft width (decimal n)) = decimal n := by
  have hblank : ∀ c ∈ List.replicate (width - (decimal n).length) ' ', isBlank c = true := by
    intro c hc
    rw [List.eq_of_mem_replicate hc]
    rfl
  rw [padLeft, List.leftpad, trim, trimStart, List.dropWhile_append_of_pos hblank]
  exact (isWord_decimal n).trim

theorem nat?_decimal (n : Nat) : nat? 10 (decimal n) = some n :=
  nat?_eq_some_iff.mpr (writesNat_decimal n)

end Text

namespace Listing

/-- What a row says. -/
structure Entry where
  position : Nat
  opcode : UInt8
  data : UInt8
  remark : Text
  deriving DecidableEq

/-- What a row says, by the columns of its text. -/
def entry? (line : Text) : Option Entry := do
  let position ← Text.nat? 10 (Text.trim (line.take 3))
  let opcode ← Text.byte? 16 ((line.drop 5).take 2)
  let data ← Text.byte? 16 ((line.drop 9).take 2)
  return ⟨position, opcode, data, line.drop 15⟩

/-- What the rows of a listing say, the header left out. -/
def entries (listing : Text) : List (Option Entry) := (Text.lines listing).tail.map entry?

/-- Every row says what it was written for. -/
theorem entry?_row {p : Nat} (h : p < 1000) (opcode data : UInt8) :
    entry? (row p opcode data) = some ⟨p, opcode, data, (remark opcode data).toList⟩ := by
  have hlen := Text.length_padLeft_decimal h
  have htrim := Text.trim_padLeft_decimal 3 p
  unfold entry? row
  generalize Text.padLeft 3 (Text.decimal p) = pad at hlen htrim
  match pad, hlen with
  | [a, b, c], _ =>
    -- all columns but the last have a fixed width
    show (do
      let position ← Text.nat? 10 (Text.trim [a, b, c])
      let op ← Text.byte? 16 (Text.hexByte Text.upperDigit opcode)
      let byte ← Text.byte? 16 (Text.hexByte Text.upperDigit data)
      return (⟨position, op, byte, (remark opcode data).toList⟩ : Entry)) = _
    rw [htrim, Text.nat?_decimal, Text.byte?_hexByte, Text.byte?_hexByte]
    rfl

/-- What the listing of an image should say, position by position. -/
def content (x : Image) : List Entry :=
  (List.range x.length).map fun p =>
    ⟨p, x.opcodeAt p, x.dataAt p, (remark (x.opcodeAt p) (x.dataAt p)).toList⟩

/-- Every listing says what its image holds. -/
theorem entries_render (x : Image) : entries (render x) = (content x).map some := by
  rw [entries, lines_render, List.tail_cons, content, List.map_map, List.map_map]
  refine List.map_congr_left fun p hp => ?_
  have hlt : p < x.length := List.mem_range.mp hp
  have hle := x.length_le
  exact entry?_row (by omega) _ _

/-- An image is built of two columns of its listing. -/
theorem ofStreams_content (x : Image) :
    Image.ofStreams ((content x).map Entry.opcode) ((content x).map Entry.data) = x := by
  have hins : (content x).map Entry.opcode = x.usedInstructions := by
    rw [content, List.map_map, x.usedInstructions_eq]
    rfl
  have hdata : (content x).map Entry.data = x.usedData := by
    rw [content, List.map_map, x.usedData_eq]
    rfl
  rw [hins, hdata, x.ofStreams_used]

end Listing

/-- A listing loses nothing: two images with the same listing have the same bytes and the same
length. -/
theorem listing_eq_iff (x y : Image) : Listing.render x = Listing.render y ↔ x = y := by
  refine ⟨fun h => ?_, congrArg Listing.render⟩
  have hentries : (Listing.content x).map some = (Listing.content y).map some := by
    rw [← Listing.entries_render, ← Listing.entries_render, h]
  have hcontent : Listing.content x = Listing.content y :=
    (List.map_inj_right fun _ _ => Option.some.inj).mp hentries
  rw [← Listing.ofStreams_content x, hcontent, Listing.ofStreams_content y]

end TwinRom
