import TwinRom.Proofs.Images
import TwinRom.Proofs.LineCode
import TwinRom.Source.Program

/-!
# Runs of programs

A program reads lines one after the other. Whatever they are, the code stays within the ROM and
holds defined opcodes only (`Program.Sound`), so that finishing a program never fails and changes
nothing (`finish_readThrough_exact`).

Reading up to the first error adds the codes of the lines one behind the other as long as they
fit (`Program.readAll_eq_ok_iff`), and the first line that is rejected or does not fit is the one
that is reported (`Program.readAll_eq_error_iff`).
-/

namespace TwinRom

namespace Fragment

/-! ## Fragments one behind the other -/

/-- Some fragments as one. -/
def concat (codes : List Fragment) : Fragment := codes.foldr (· ++ ·) .empty

@[simp] theorem concat_nil : concat [] = .empty := rfl

@[simp] theorem concat_cons (f : Fragment) (codes : List Fragment) :
    concat (f :: codes) = f ++ concat codes := rfl

@[simp] theorem append_empty (f : Fragment) : f ++ empty = f := by
  rw [← cells_inj, cells_append, cells_empty, List.append_nil]

@[simp] theorem empty_append (f : Fragment) : empty ++ f = f := by
  rw [← cells_inj, cells_append, cells_empty, List.nil_append]

theorem append_assoc (f g h : Fragment) : f ++ g ++ h = f ++ (g ++ h) := by
  simp only [← cells_inj, cells_append, List.append_assoc]

@[simp] theorem length_empty : empty.length = 0 := rfl

theorem instructions_concat : ∀ codes : List Fragment,
    (concat codes).instructions = codes.flatMap Fragment.instructions
  | [] => rfl
  | f :: codes => by
    rw [concat_cons, instructions_append, instructions_concat codes, List.flatMap_cons]

theorem data_concat : ∀ codes : List Fragment,
    (concat codes).data = codes.flatMap Fragment.data
  | [] => rfl
  | f :: codes => by rw [concat_cons, data_append, data_concat codes, List.flatMap_cons]

end Fragment

namespace Program

variable {p q : Program} {text : Text} {texts : List Text} {code : Fragment} {fault : Fault}
  {e : LineError}

/-! ## One line -/

/-- A line is accepted if it has code and the ROM has room for it. -/
theorem codeWith_eq_ok_iff : p.codeWith text = .ok code ↔ ∃ added,
    Line.code text = .ok added ∧ p.code.length + added.length ≤ romSize ∧
      code = p.code ++ added := by
  rw [codeWith, bind_eq_ok_iff]
  refine exists_congr fun added => and_congr_right fun _ => ?_
  unfold extend
  split
  next hle => simp [hle, eq_comm (a := code)]
  next hgt => simp [hgt]

/-- A line is refused for its own fault, or because the ROM would overflow. -/
theorem codeWith_eq_error_iff : p.codeWith text = .error fault ↔ Line.code text = .error fault ∨
    ∃ added, Line.code text = .ok added ∧ romSize < p.code.length + added.length ∧
      fault = .romOverflow (p.code.length + added.length) := by
  rw [codeWith, bind_eq_error_iff]
  refine or_congr_right (exists_congr fun added => and_congr_right fun _ => ?_)
  unfold extend
  split
  next hle => simp [Nat.not_lt.mpr hle]
  next hgt => simp [Nat.lt_of_not_le hgt, eq_comm (a := fault)]

/-- A line without an error is one that is accepted. -/
theorem error?_eq_none_iff : p.error? text = none ↔ ∃ code, p.codeWith text = .ok code := by
  unfold error?
  split
  next code h => simp [h]
  next fault h => simp [h]

/-- An error has the fault of the line and its number, counted from one. -/
theorem error?_eq_some_iff : p.error? text = some e ↔
    p.codeWith text = .error e.fault ∧ e.line = some (p.lines + 1) := by
  obtain ⟨line, fault⟩ := e
  unfold error?
  split
  next code h => simp [h]
  next fault' h => simp [h, and_comm, eq_comm (a := line)]

theorem error?_of_codeWith_eq_ok (h : p.codeWith text = .ok code) : p.error? text = none := by
  rw [error?, h]

theorem error?_of_codeWith_eq_error (h : p.codeWith text = .error fault) :
    p.error? text = some ⟨some (p.lines + 1), fault⟩ := by
  rw [error?, h]

/-- An accepted line adds its code. -/
theorem read_of_codeWith_eq_ok (h : p.codeWith text = .ok code) :
    p.read text = ⟨p.lines + 1, code⟩ := by
  rw [read, h]

/-- A refused line is counted, but adds no code. -/
theorem read_of_codeWith_eq_error (h : p.codeWith text = .error fault) :
    p.read text = ⟨p.lines + 1, p.code⟩ := by
  rw [read, h]

/-! ## What every program keeps -/

/-- A program that a ROM has room for and that a machine could run. -/
structure Sound (p : Program) : Prop where
  /-- The code fits into the ROM. -/
  fits : p.code.length ≤ romSize
  /-- Every opcode of the code is defined. -/
  defined : ∀ op ∈ p.code.instructions, Opcode.isDefined op = true

theorem Sound.empty : Sound empty :=
  ⟨Nat.zero_le romSize, fun _ hop => by cases hop⟩

/-- A line keeps a program sound, whether it is accepted or not. -/
theorem Sound.read (h : p.Sound) (text : Text) : (p.read text).Sound := by
  cases hc : p.codeWith text with
  | error fault =>
    rw [read_of_codeWith_eq_error hc]
    exact ⟨h.fits, h.defined⟩
  | ok code =>
    obtain ⟨added, ha, hle, rfl⟩ := codeWith_eq_ok_iff.mp hc
    rw [read_of_codeWith_eq_ok hc]
    refine ⟨by rwa [Fragment.length_append], fun op hop => ?_⟩
    rcases List.mem_append.mp hop with hop | hop
    · exact h.defined op hop
    · exact Line.isDefined_of_code ha op hop

/-- Reading on keeps a program sound, whatever the lines. -/
theorem Sound.readThrough : ∀ {p : Program}, p.Sound → ∀ texts, (p.readThrough texts).Sound
  | _, h, [] => h
  | _, h, text :: texts => Sound.readThrough (h.read text) texts

/-- A program is finished if validation finds nothing in its image. -/
theorem finish_of_invalidOpcodes_eq_nil (h : p.image.invalidOpcodes = []) :
    p.finish = .ok p.image := by
  have hvalid := Image.validate_eq_ok_iff.mpr h
  unfold finish
  split
  next => rfl
  next hfault => cases hvalid.symm.trans hfault

/-- The image of a sound program holds its code and nothing else. -/
theorem Sound.finish (h : p.Sound) : p.finish = .ok p.image ∧ p.image.length = p.code.length ∧
    p.image.usedInstructions = p.code.instructions ∧ p.image.usedData = p.code.data := by
  have hfits : p.code.instructions.length ≤ 256 := h.fits
  have hused : p.image.usedInstructions = p.code.instructions :=
    Image.usedInstructions_ofStreams p.code.aligned hfits
  have hlen : p.image.length = p.code.length := by
    rw [← p.image.length_usedInstructions, hused]
    rfl
  exact ⟨finish_of_invalidOpcodes_eq_nil (Image.invalidOpcodes_ofStreams _ h.defined), hlen, hused,
    Image.usedData_ofStreams p.code.aligned hfits⟩

/-! ## Reading up to the first error -/

/-- All lines are accepted if the first is, and then the others behind its code. -/
theorem readAll_cons_eq_ok_iff : p.readAll (text :: texts) = .ok q ↔ ∃ added,
    Line.code text = .ok added ∧ p.code.length + added.length ≤ romSize ∧
      readAll ⟨p.lines + 1, p.code ++ added⟩ texts = .ok q := by
  rw [readAll]
  constructor
  · intro h
    cases herr : p.error? text with
    | some e =>
      rw [herr] at h
      cases h
    | none =>
      obtain ⟨code, hcode⟩ := error?_eq_none_iff.mp herr
      rw [herr, read_of_codeWith_eq_ok hcode] at h
      obtain ⟨added, hadded, hle, rfl⟩ := codeWith_eq_ok_iff.mp hcode
      exact ⟨added, hadded, hle, h⟩
  · rintro ⟨added, hadded, hle, h⟩
    have hcode := codeWith_eq_ok_iff.mpr ⟨added, hadded, hle, rfl⟩
    rw [error?_eq_none_iff.mpr ⟨_, hcode⟩, read_of_codeWith_eq_ok hcode]
    exact h

/-- The first line that is refused is the one reported. -/
theorem readAll_cons_eq_error_iff : p.readAll (text :: texts) = .error e ↔
    p.error? text = some e ∨ p.error? text = none ∧ (p.read text).readAll texts = .error e := by
  rw [readAll]
  cases p.error? text <;> simp

/-- Without a refusal, stopping at errors and reading on come to the same program. -/
theorem eq_readThrough_of_readAll : ∀ {texts : List Text} {p : Program},
    p.readAll texts = .ok q → q = p.readThrough texts
  | [], _, h => (Except.ok.inj h).symm
  | text :: texts, p, h => by
    obtain ⟨added, hadded, hle, h⟩ := readAll_cons_eq_ok_iff.mp h
    have hcode := codeWith_eq_ok_iff.mpr ⟨added, hadded, hle, rfl⟩
    rw [eq_readThrough_of_readAll h, ← read_of_codeWith_eq_ok hcode]
    rfl

/-- All lines are accepted exactly if each has code and the ROM has room for all of it. -/
theorem readAll_eq_ok_iff : ∀ {texts : List Text} {p q : Program}, p.code.length ≤ romSize →
    (p.readAll texts = .ok q ↔ ∃ codes, texts.map Line.code = codes.map .ok ∧
      p.code.length + (Fragment.concat codes).length ≤ romSize ∧
      q = ⟨p.lines + texts.length, p.code ++ Fragment.concat codes⟩)
  | [], p, q, hp => by
    constructor
    · intro h
      obtain rfl := Except.ok.inj h
      exact ⟨[], rfl, hp, by simp⟩
    · rintro ⟨codes, hcodes, -, rfl⟩
      obtain rfl := List.map_eq_nil_iff.mp hcodes.symm
      simp [readAll]
  | text :: texts, p, q, hp => by
    rw [readAll_cons_eq_ok_iff]
    constructor
    · rintro ⟨added, hadded, hle, h⟩
      have hp' : (p.code ++ added).length ≤ romSize := by rwa [Fragment.length_append]
      obtain ⟨codes, hcodes, hfit, rfl⟩ := (readAll_eq_ok_iff hp').mp h
      refine ⟨added :: codes, by rw [List.map_cons, hadded, hcodes, List.map_cons], ?_, ?_⟩
      · rw [Fragment.length_append] at hfit
        rw [Fragment.concat_cons, Fragment.length_append]
        omega
      · rw [Fragment.append_assoc, List.length_cons, Fragment.concat_cons,
          Nat.add_right_comm, Nat.add_assoc]
    · rintro ⟨codes, hcodes, hfit, rfl⟩
      obtain ⟨added, codes, rfl, hadded, hcodes⟩ := List.map_eq_cons_iff.mp hcodes.symm
      rw [Fragment.concat_cons, Fragment.length_append] at hfit
      have hp' : (p.code ++ added).length ≤ romSize := by
        rw [Fragment.length_append]
        omega
      refine ⟨added, hadded.symm, by omega,
        (readAll_eq_ok_iff hp').mpr ⟨codes, hcodes.symm, ?_, ?_⟩⟩
      · rw [Fragment.length_append]
        omega
      · rw [Fragment.append_assoc, List.length_cons, Fragment.concat_cons,
          Nat.add_right_comm, Nat.add_assoc]

/-- `readAll_eq_ok_iff` for a whole program. -/
theorem readAll_empty_eq_ok_iff : empty.readAll texts = .ok q ↔ ∃ codes,
    texts.map Line.code = codes.map .ok ∧ (Fragment.concat codes).length ≤ romSize ∧
      q = ⟨texts.length, Fragment.concat codes⟩ := by
  rw [readAll_eq_ok_iff Sound.empty.fits]
  simp [empty]

/-- The error that is reported is that of the first line that cannot be added. -/
theorem readAll_eq_error_iff : ∀ {texts : List Text} {p : Program},
    p.readAll texts = .error e ↔ ∃ pre text post q, texts = pre ++ text :: post ∧
      p.readAll pre = .ok q ∧ q.error? text = some e
  | [], p => by simp [readAll]
  | text :: texts, p => by
    rw [readAll_cons_eq_error_iff]
    constructor
    · rintro (h | ⟨hnone, h⟩)
      · exact ⟨[], text, texts, p, rfl, rfl, h⟩
      · obtain ⟨pre, text', post, q, rfl, hq, he⟩ := readAll_eq_error_iff.mp h
        refine ⟨text :: pre, text', post, q, rfl, ?_, he⟩
        rw [readAll, hnone]
        exact hq
    · rintro ⟨_ | ⟨_, pre⟩, text', post, q, h, hq, he⟩
      · obtain ⟨rfl, rfl⟩ := List.cons.inj h
        obtain rfl := Except.ok.inj hq
        exact .inl he
      · obtain ⟨rfl, rfl⟩ := List.cons.inj h
        rw [readAll] at hq
        cases hnone : p.error? text with
        | some e' =>
          rw [hnone] at hq
          cases hq
        | none =>
          rw [hnone] at hq
          exact .inr ⟨rfl, readAll_eq_error_iff.mpr ⟨pre, text', post, q, rfl, hq, he⟩⟩

/-! ## Errors -/

/-- What is wrong with a line is not that an opcode is undefined. -/
theorem error?_fault_ne (h : p.error? text = some e) (position : Nat) (opcode : UInt8) :
    e.fault ≠ .invalidOpcode position opcode := by
  intro hfault
  rcases codeWith_eq_error_iff.mp (error?_eq_some_iff.mp h).1 with h | ⟨_, -, -, h⟩
  · have hline := Line.isOfLine_of_code h
    rw [hfault] at hline
    cases hline
  · rw [hfault] at h
    cases h

/-- Every error that is listed is the error of some line. -/
theorem error?_of_mem_errors : ∀ {texts : List Text} {p : Program}, e ∈ p.errors texts →
    ∃ q text, Program.error? q text = some e
  | [], _, h => by cases h
  | text :: _, p, h => by
    rcases List.mem_append.mp h with h | h
    · exact ⟨p, text, Option.mem_toList.mp h⟩
    · exact error?_of_mem_errors h

end Program

/-- The image of a source holds the codes of its lines one behind the other. -/
theorem assemble_eq_ok_iff {source : Text} {x : Image} :
    assemble source = .ok x ↔ ∃ codes, (Text.lines source).map Line.code = codes.map .ok ∧
      (Fragment.concat codes).length ≤ romSize ∧
      x.usedInstructions = (Fragment.concat codes).instructions ∧
      x.usedData = (Fragment.concat codes).data := by
  rw [assemble, bind_eq_ok_iff]
  constructor
  · rintro ⟨q, hq, hfin⟩
    have hsound : q.Sound := by
      rw [Program.eq_readThrough_of_readAll hq]
      exact Program.Sound.empty.readThrough _
    obtain ⟨codes, hcodes, hle, rfl⟩ := Program.readAll_empty_eq_ok_iff.mp hq
    obtain ⟨himage, -, hused⟩ := hsound.finish
    obtain rfl := Except.ok.inj (himage.symm.trans hfin)
    exact ⟨codes, hcodes, hle, hused⟩
  · rintro ⟨codes, hcodes, hle, hins, hdata⟩
    have hq := Program.readAll_empty_eq_ok_iff.mpr ⟨codes, hcodes, hle, rfl⟩
    refine ⟨_, hq, ?_⟩
    rw [Program.eq_readThrough_of_readAll hq, (Program.Sound.empty.readThrough _).finish.1,
      ← Program.eq_readThrough_of_readAll hq, Program.image, ← hins, ← hdata, Image.ofStreams_used]

/-- Assembling fails only while lines are read, as the finished image is always valid. -/
theorem assemble_eq_error_iff {source : Text} {e : LineError} :
    assemble source = .error e ↔ Program.empty.readAll (Text.lines source) = .error e := by
  rw [assemble, bind_eq_error_iff, or_iff_left_iff_imp]
  rintro ⟨q, hq, hfin⟩
  rw [Program.eq_readThrough_of_readAll hq, (Program.Sound.empty.readThrough _).finish.1] at hfin
  cases hfin

/-- Every error of a source is that of a line. -/
theorem error?_of_assemble {source : Text} {e : LineError} (h : assemble source = .error e) :
    ∃ q text, Program.error? q text = some e := by
  obtain ⟨-, text, -, q, -, -, he⟩ := Program.readAll_eq_error_iff.mp (assemble_eq_error_iff.mp h)
  exact ⟨q, text, he⟩

/-- Diagnosing a source lists the errors of its lines and adds none of its own. -/
theorem diagnose_eq_errors (source : Text) :
    diagnose source = Program.empty.errors (Text.lines source) := by
  unfold diagnose
  split
  next herr =>
    rw [(Program.Sound.empty.readThrough _).finish.1, herr]
  next => rfl

/-- Finishing a program never fails and changes nothing, whatever lines it has read: its streams
have one length, fit into the ROM and hold defined opcodes only, and they are the used bytes of
the image. No source has an error that does not belong to a line. -/
theorem finish_readThrough_exact (texts : List Text) :
    let p := Program.empty.readThrough texts
    (p.code.instructions.length = p.code.data.length ∧ p.code.instructions.length ≤ romSize ∧
        ∀ op ∈ p.code.instructions, Opcode.isDefined op = true) ∧
      (∃ x, p.finish = .ok x ∧ x.length = p.code.length ∧
        x.usedInstructions = p.code.instructions ∧ x.usedData = p.code.data) ∧
      ∀ source e, assemble source = .error e ∨ e ∈ diagnose source →
        e.line ≠ none ∧ ∀ position opcode, e.fault ≠ .invalidOpcode position opcode := by
  intro p
  have hp : p.Sound := Program.Sound.empty.readThrough texts
  refine ⟨⟨p.code.aligned, hp.fits, hp.defined⟩, ⟨p.image, hp.finish⟩, fun source e he => ?_⟩
  obtain ⟨q, text, he⟩ : ∃ q text, Program.error? q text = some e := by
    rcases he with he | he
    · exact error?_of_assemble he
    · rw [diagnose_eq_errors] at he
      exact Program.error?_of_mem_errors he
  refine ⟨?_, Program.error?_fault_ne he⟩
  rw [(Program.error?_eq_some_iff.mp he).2]
  exact Option.some_ne_none _

end TwinRom
