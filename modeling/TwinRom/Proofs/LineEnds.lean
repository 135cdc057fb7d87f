import TwinRom.Proofs.Loading
import TwinRom.Source.Program

/-!
# Line ends

A line ends at a line feed or at a carriage return with a line feed, and neither is part of it
(`Text.lines_withReturns`). Behind the last line the end may be missing
(`Text.lines_append_lineEnd`). Sources, and images in the formats that have lines, count by their
lines only, so it makes no difference to them which line end is used (`line_ends_agree`).
-/

namespace TwinRom

namespace Text

/-- The ends that a line may have. -/
def lineEnds : List Text := [['\n'], ['\r', '\n']]

/-- A text with a carriage return in front of every line feed. -/
def withReturns (t : Text) : Text := t.flatMap fun c => if c = '\n' then ['\r', '\n'] else [c]

theorem withReturns_newline (t : Text) :
    withReturns ('\n' :: t) = '\r' :: '\n' :: withReturns t := rfl

theorem withReturns_cons {c : Char} (hc : c ≠ '\n') (t : Text) :
    withReturns (c :: t) = c :: withReturns t := by
  rw [withReturns, List.flatMap_cons, if_neg hc]
  rfl

/-- A carriage return in front of a line feed is no part of the line. -/
theorem lines_withReturns {t : Text} (h : '\r' ∉ t) : lines (withReturns t) = lines t := by
  induction t with
  | nil => rfl
  | cons c t ih =>
    obtain ⟨hreturn, ht⟩ := List.ne_and_not_mem_of_not_mem_cons h
    by_cases hfeed : c = '\n'
    · rw [hfeed, withReturns_newline, lines_return_newline, lines_newline, ih ht]
    · rw [withReturns_cons hfeed, lines_cons hfeed hreturn.symm, lines_cons hfeed hreturn.symm,
        ih ht]

/-- A line end alone is one empty line. -/
theorem lines_lineEnd {e : Text} (he : e ∈ lineEnds) : lines e = [[]] := by
  simp only [lineEnds, List.mem_cons, List.not_mem_nil, or_false] at he
  rcases he with rfl | rfl
  · rw [lines_newline, lines_nil]
  · rw [lines_return_newline, lines_nil]

/-- A line end behind the last line opens no further line. -/
theorem lines_append_lineEnd {e : Text} (he : e ∈ lineEnds) :
    ∀ {t : Text}, '\r' ∉ t → t ≠ [] → t.getLast? ≠ some '\n' → lines (t ++ e) = lines t
  | [c], hreturn, _, hlast => by
    have hc : c ≠ '\n' := by simpa using hlast
    have hr : c ≠ '\r' := fun hc' => hreturn (hc' ▸ List.mem_cons_self)
    rw [List.singleton_append, lines_cons hc hr, lines_cons hc hr, lines_lineEnd he, lines_nil]
    rfl
  | c :: d :: t, hreturn, _, hlast => by
    obtain ⟨hr, ht⟩ := List.ne_and_not_mem_of_not_mem_cons hreturn
    have ih := lines_append_lineEnd he ht (List.cons_ne_nil d t) (by simpa using hlast)
    by_cases hfeed : c = '\n'
    · rw [hfeed, List.cons_append, lines_newline, lines_newline, ih]
    · rw [List.cons_append, lines_cons hfeed hr.symm, lines_cons hfeed hr.symm, ih]

end Text

/-! ## What counts by its lines -/

section Lines

variable {s t : Text} (h : Text.lines s = Text.lines t)
include h

/-- A source is assembled line by line. -/
theorem assemble_eq_of_lines : assemble s = assemble t := by
  rw [assemble, assemble, h]

theorem diagnose_eq_of_lines : diagnose s = diagnose t := by
  rw [diagnose, diagnose, h]

/-- The formats that are made of lines are read line by line. -/
theorem Image.load_eq_of_lines {format : Format} (hformat : format ∈ [.table, .markers, .hex]) :
    load format (Utf8.encode s) = load format (Utf8.encode t) := by
  have hread : format.readText s = format.readText t := by
    simp only [List.mem_cons, List.not_mem_nil, or_false] at hformat
    rcases hformat with rfl | rfl | rfl
    · simp only [Format.readText, Table.read, h]
    · simp only [Format.readText, Markers.read, Markers.filledLines, h]
    · simp only [Format.readText, HexLines.read, HexLines.filledLines, h]
  have hbin : format ≠ .bin := by
    rintro rfl
    exact absurd hformat (by decide)
  rw [load_encode hbin, load_encode hbin, hread]

end Lines

/-- Line ends do not matter. Let a text have no carriage return. With one in front of every line
feed it is assembled to the same image, or for the same errors, and the same is loaded from it in
every format that has lines. A source whose last line has no end may as well have one. -/
theorem line_ends_agree {t : Text} (h : '\r' ∉ t) :
    (assemble (Text.withReturns t) = assemble t ∧ diagnose (Text.withReturns t) = diagnose t) ∧
      (t ≠ [] → t.getLast? ≠ some '\n' → ∀ e ∈ Text.lineEnds,
        assemble (t ++ e) = assemble t ∧ diagnose (t ++ e) = diagnose t) ∧
      ∀ format ∈ [Format.table, .markers, .hex],
        Image.load format (Utf8.encode (Text.withReturns t)) =
          Image.load format (Utf8.encode t) := by
  have hlines := Text.lines_withReturns h
  refine ⟨⟨assemble_eq_of_lines hlines, diagnose_eq_of_lines hlines⟩, fun hne hlast e he => ?_,
    fun format hformat => Image.load_eq_of_lines hlines hformat⟩
  have hend := Text.lines_append_lineEnd he h hne hlast
  exact ⟨assemble_eq_of_lines hend, diagnose_eq_of_lines hend⟩

/-- A source with an error on its last line, which has no end. With the carriage returns in its
lines the operand of the first instruction would be another one. -/
theorem line_ends_agree_last_line :
    let t := "jmp 3\n\nfoo".toList
    let e : LineError := ⟨some 3, .unknownInstruction "foo".toList⟩
    '\r' ∉ t ∧ Text.withReturns t = "jmp 3\r\n\r\nfoo".toList ∧
      assemble (Text.withReturns t) = .error e ∧ diagnose (t ++ ['\r', '\n']) = [e] ∧
      Image.load .markers (Utf8.encode (Text.withReturns t)) =
        .error (.badByte 1 "jmp".toList) := by
  intro t e
  have ht : '\r' ∉ t := by decide
  obtain ⟨⟨hassemble, -⟩, hend, hload⟩ := line_ends_agree ht
  refine ⟨ht, rfl, hassemble.trans rfl, ?_, (hload .markers (by decide)).trans ?_⟩
  · exact (hend (by decide) (by decide) _ (by decide)).2.trans rfl
  · rw [Image.load_encode (by decide)]
    rfl

end TwinRom
