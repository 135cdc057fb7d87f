import Mathlib.Data.List.Induction
import TwinRom.Cli.Run
import TwinRom.Proofs.Linewise

/-!
# Diagnosis

A source can be read up to its first error or to its end. The first of all errors is the one at
which reading stops (`Program.head?_errors_eq_some_iff`), so a source can be assembled exactly if
nothing is wrong with any line, and the command that checks a source answers for the one that
assembles it (`assemble_diagnose_agree`).

A rejected line is as good as a blank one (`Program.Sound.read_keep`). Hence the errors of some
lines are those of each line behind the accepted ones before it (`errors_blankOut`): a line has a
fault of its own, or its code no longer fits (`Rejected`).
-/

namespace TwinRom

namespace Program

variable {p : Program} {text : Text} {texts : List Text} {e : LineError}

/-! ## The first error -/

/-- The first of all errors is the one at which reading stops. -/
theorem head?_errors_eq_some_iff : ∀ {texts : List Text} {p : Program},
    (p.errors texts).head? = some e ↔ p.readAll texts = .error e
  | [], p => by simp [errors, readAll]
  | text :: texts, p => by
    rw [readAll_cons_eq_error_iff, errors]
    cases p.error? text with
    | some e' => simp
    | none => simpa using head?_errors_eq_some_iff

theorem errors_eq_nil_iff : p.errors texts = [] ↔ ∃ q, p.readAll texts = .ok q := by
  rw [← List.head?_eq_none_iff, Option.eq_none_iff_forall_ne_some, exists_eq_ok_iff]
  simp only [ne_eq, head?_errors_eq_some_iff]

/-! ## Line after line -/

theorem readThrough_append (p : Program) (texts texts' : List Text) :
    p.readThrough (texts ++ texts') = (p.readThrough texts).readThrough texts' :=
  List.foldl_append

theorem errors_append : ∀ (texts texts' : List Text) (p : Program),
    p.errors (texts ++ texts') = p.errors texts ++ (p.readThrough texts).errors texts'
  | [], _, _ => rfl
  | text :: texts, texts', p => by
    rw [List.cons_append, errors, errors_append, errors, List.append_assoc]
    rfl

/-- One more line adds its own error, if it has one. -/
theorem errors_concat (p : Program) (texts : List Text) (text : Text) :
    p.errors (texts ++ [text]) = p.errors texts ++ ((p.readThrough texts).error? text).toList := by
  rw [errors_append, errors, errors, List.append_nil]

theorem lines_readThrough : ∀ (texts : List Text) (p : Program),
    (p.readThrough texts).lines = p.lines + texts.length
  | [], _ => rfl
  | text :: texts, p => by
    rw [List.length_cons, ← Nat.add_assoc, Nat.add_right_comm, ← lines_read p text]
    exact lines_readThrough texts _

/-- An error is that of a line behind the lines before it. -/
theorem mem_errors_iff : ∀ {texts : List Text} {p : Program}, e ∈ p.errors texts ↔
    ∃ k text, texts[k]? = some text ∧ (p.readThrough (texts.take k)).error? text = some e
  | [], p => by simp [errors]
  | text :: texts, p => by
    rw [errors, List.mem_append, Option.mem_toList, mem_errors_iff]
    constructor
    · rintro (h | ⟨k, text', hk, h⟩)
      · exact ⟨0, text, rfl, h⟩
      · exact ⟨k + 1, text', hk, h⟩
    · rintro ⟨_ | k, text', hk, h⟩
      · obtain rfl := Option.some.inj hk
        exact .inl h
      · exact .inr ⟨k, text', hk, h⟩

/-- The number in an error is that of its line. -/
theorem line_of_error?_readThrough {k : Nat} (hk : texts[k]? = some text)
    (h : (p.readThrough (texts.take k)).error? text = some e) :
    e.line = some (p.lines + k + 1) := by
  have hlt : k < texts.length := (List.getElem?_eq_some_iff.mp hk).1
  rw [(error?_eq_some_iff.mp h).2, lines_readThrough, List.length_take_of_le hlt.le]

theorem line_of_mem_errors (h : e ∈ p.errors texts) :
    ∃ n, e.line = some n ∧ p.lines < n ∧ n ≤ p.lines + texts.length := by
  obtain ⟨k, text, hk, he⟩ := mem_errors_iff.mp h
  have hlt : k < texts.length := (List.getElem?_eq_some_iff.mp hk).1
  exact ⟨_, line_of_error?_readThrough hk he, by omega, by omega⟩

/-- The numbers in the errors increase. -/
theorem pairwise_errors (p : Program) (texts : List Text) :
    (p.errors texts).Pairwise fun e e' => e.line < e'.line := by
  induction texts using List.reverseRecOn with
  | nil => exact .nil
  | append_singleton texts text ih =>
    rw [errors_concat, List.pairwise_append]
    refine ⟨ih, by cases (p.readThrough texts).error? text <;> simp, fun e he e' he' => ?_⟩
    obtain ⟨n, hn, -, hle⟩ := line_of_mem_errors he
    rw [hn, (error?_eq_some_iff.mp (Option.mem_toList.mp he')).2, lines_readThrough,
      Option.some_lt_some]
    omega

/-! ## Rejected lines -/

/-- A line as a program keeps it: blank, if it is rejected. -/
def keep (p : Program) (text : Text) : Text := if (p.error? text).isSome then [] else text

theorem Sound.codeWith_nil (h : p.Sound) : p.codeWith [] = .ok p.code :=
  codeWith_eq_ok_iff.mpr ⟨.empty, rfl, h.fits, (Fragment.append_empty p.code).symm⟩

/-- A rejected line is as good as a blank one: made blank, it is accepted, and it leaves the
program as it was left before. -/
theorem Sound.read_keep (h : p.Sound) (text : Text) :
    p.error? (p.keep text) = none ∧ p.read (p.keep text) = p.read text := by
  cases hcode : p.codeWith text with
  | ok code =>
    have hnone := error?_of_codeWith_eq_ok hcode
    rw [keep, hnone]
    exact ⟨hnone, rfl⟩
  | error fault =>
    rw [keep, error?_of_codeWith_eq_error hcode, read_of_codeWith_eq_error hcode]
    exact ⟨error?_of_codeWith_eq_ok h.codeWith_nil, read_of_codeWith_eq_ok h.codeWith_nil⟩

end Program

/-- Some lines with those made blank that errors name. -/
def blankOut (errors : List LineError) (texts : List Text) : List Text :=
  texts.mapIdx fun k text => if some (k + 1) ∈ errors.map LineError.line then [] else text

namespace Program

theorem line_mem_errors_iff {texts : List Text} {k : Nat} (hk : k < texts.length) :
    some (k + 1) ∈ (empty.errors texts).map LineError.line ↔
      ((empty.readThrough (texts.take k)).error? texts[k]).isSome := by
  rw [List.mem_map, Option.isSome_iff_exists]
  constructor
  · rintro ⟨e, he, hline⟩
    obtain ⟨j, text, hj, herr⟩ := mem_errors_iff.mp he
    obtain rfl : j = k := by
      have hline' := line_of_error?_readThrough hj herr
      simp only [hline, empty, Option.some.injEq] at hline'
      omega
    obtain ⟨_, rfl⟩ := List.getElem?_eq_some_iff.mp hj
    exact ⟨e, herr⟩
  · rintro ⟨e, he⟩
    have hget : texts[k]? = some texts[k] := List.getElem?_eq_getElem hk
    refine ⟨e, mem_errors_iff.mpr ⟨k, _, hget, he⟩, ?_⟩
    simpa [empty] using line_of_error?_readThrough hget he

/-- The lines that the errors do not name are those that the program keeps. -/
theorem blankOut_errors (texts : List Text) : blankOut (empty.errors texts) texts =
    texts.mapIdx fun k text => (empty.readThrough (texts.take k)).keep text := by
  rw [blankOut, List.mapIdx_eq_mapIdx_iff]
  intro k hk
  simp only [keep, line_mem_errors_iff hk]

theorem blankOut_errors_concat (texts : List Text) (text : Text) :
    blankOut (empty.errors (texts ++ [text])) (texts ++ [text]) =
      blankOut (empty.errors texts) texts ++ [(empty.readThrough texts).keep text] := by
  rw [blankOut_errors, blankOut_errors, List.mapIdx_concat, List.take_left]
  congr 1
  rw [List.mapIdx_eq_mapIdx_iff]
  intro k hk
  rw [List.take_append_of_le_length hk.le]

theorem take_blankOut_errors (texts : List Text) (k : Nat) :
    (blankOut (empty.errors texts) texts).take k =
      blankOut (empty.errors (texts.take k)) (texts.take k) := by
  induction texts using List.reverseRecOn generalizing k with
  | nil => simp [blankOut]
  | append_singleton texts text ih =>
    rcases Nat.lt_or_ge texts.length k with hk | hk
    · rw [List.take_of_length_le, List.take_of_length_le] <;> simp [blankOut] <;> omega
    · rw [blankOut_errors_concat, List.take_append_of_le_length (by simpa [blankOut] using hk),
        List.take_append_of_le_length hk, ih]

/-- With the rejected lines blank, all lines are accepted and the program is the same. -/
theorem run_blankOut (texts : List Text) :
    empty.errors (blankOut (empty.errors texts) texts) = [] ∧
      empty.readThrough (blankOut (empty.errors texts) texts) = empty.readThrough texts := by
  -- the numbers in the errors count from the first line, so lines are added at the other end
  induction texts using List.reverseRecOn with
  | nil => exact ⟨rfl, rfl⟩
  | append_singleton texts text ih =>
    obtain ⟨hnone, hread⟩ := (Sound.empty.readThrough texts).read_keep text
    rw [blankOut_errors_concat, errors_concat, readThrough_append, readThrough_append, ih.1, ih.2,
      hnone]
    exact ⟨rfl, hread⟩

/-- Lines that are all accepted give as much code as each gives on its own. -/
theorem length_code_of_errors_eq_nil {texts : List Text} (h : empty.errors texts = []) :
    (empty.readThrough texts).code.length = ((texts.map Line.code).map positionsOf).sum := by
  obtain ⟨q, hq⟩ := errors_eq_nil_iff.mp h
  obtain ⟨codes, hcodes, -, hcode⟩ := readAll_empty_eq_ok_iff.mp hq
  rw [← eq_readThrough_of_readAll hq, hcode, hcodes, sum_positionsOf]

/-- The code of a program is that of the accepted lines. -/
theorem length_code_readThrough_take (texts : List Text) (k : Nat) :
    (empty.readThrough (texts.take k)).code.length =
      ((((blankOut (empty.errors texts) texts).take k).map Line.code).map positionsOf).sum := by
  obtain ⟨hnone, hsame⟩ := run_blankOut (texts.take k)
  rw [take_blankOut_errors, ← length_code_of_errors_eq_nil hnone, hsame]

end Program

/-- Why a line with this outcome is rejected behind `used` positions of code: for a fault of its
own, or because its code does not fit. -/
inductive Rejected (used : Nat) : Except Fault Fragment → Fault → Prop where
  | own (fault : Fault) : Rejected used (.error fault) fault
  | overflow {code : Fragment} (h : romSize < used + code.length) :
      Rejected used (.ok code) (.romOverflow (used + code.length))

theorem rejected_iff {used : Nat} {outcome : Except Fault Fragment} {fault : Fault} :
    Rejected used outcome fault ↔ outcome = .error fault ∨ ∃ code, outcome = .ok code ∧
      romSize < used + code.length ∧ fault = .romOverflow (used + code.length) := by
  constructor
  · rintro (_ | ⟨hover⟩)
    · exact .inl rfl
    · exact .inr ⟨_, rfl, hover, rfl⟩
  · rintro (rfl | ⟨code, rfl, hover, rfl⟩)
    · exact .own fault
    · exact .overflow hover

theorem Program.error?_eq_some_iff_rejected {p : Program} {text : Text} {e : LineError} :
    p.error? text = some e ↔
      e.line = some (p.lines + 1) ∧ Rejected p.code.length (Line.code text) e.fault := by
  rw [error?_eq_some_iff, codeWith_eq_error_iff, rejected_iff, and_comm]

/-! ## Whole sources -/

theorem Command.exit_check {disk : Disk} {path : Text} {bytes : List UInt8} {source : Text}
    (hread : disk.read path = .ok bytes) (htext : Utf8.decode bytes = .ok source) :
    ((Command.check path).run disk).exit = 0 ↔ diagnose source = [] := by
  simp only [Command.run, Command.input, hread, Command.reply, Reply.check,
    Reply.asText_of_decode htext]
  cases diagnose source <;> simp [Action.act, Reply.text]

/-- Assembling and diagnosing agree: a source can be assembled exactly if its diagnosis is empty,
and the error that assembling reports is the first of the diagnosis. So, for a file that holds the
source as a text, the check succeeds exactly if the source can be assembled. -/
theorem assemble_diagnose_agree (source : Text) :
    ((∃ x, assemble source = .ok x) ↔ diagnose source = []) ∧
      (∀ e, assemble source = .error e ↔ (diagnose source).head? = some e) ∧
      ∀ (disk : Disk) (words : List Text) (path : Text) (bytes : List UInt8),
        Request.ofWords? words = some (.run (.check path)) → disk.read path = .ok bytes →
        Utf8.decode bytes = .ok source →
        ((run disk words).exit = 0 ↔ ∃ x, assemble source = .ok x) := by
  have herror : ∀ e, assemble source = .error e ↔ (diagnose source).head? = some e := by
    intro e
    rw [assemble_eq_error_iff, diagnose_eq_errors, Program.head?_errors_eq_some_iff]
  have hok : (∃ x, assemble source = .ok x) ↔ diagnose source = [] := by
    rw [diagnose_eq_errors, Program.errors_eq_nil_iff, exists_eq_ok_iff, exists_eq_ok_iff]
    simp only [ne_eq, assemble_eq_error_iff]
  refine ⟨hok, herror, fun disk words path bytes hwords hread htext => ?_⟩
  rw [hok, ← Command.exit_check hread htext, run, hwords]

/-- The check of a file with errors on its second and on its last line. -/
theorem assemble_diagnose_agree_file :
    let source := "nop\nsor r4\njmp 0\nfoo".toList
    let disk : Disk := ⟨[([['p']], .file (Utf8.encode source))]⟩
    let words := ["check".toList, ['p']]
    (Request.ofWords? words = some (.run (.check ['p'])) ∧
        disk.read ['p'] = .ok (Utf8.encode source) ∧
        Utf8.decode (Utf8.encode source) = .ok source) ∧
      ((run disk words).exit = 0 ↔ ∃ x, assemble source = .ok x) ∧
      (diagnose source).map LineError.line = [some 2, some 4] ∧
      assemble source = .error ⟨some 2, .unsupportedShape "sor".toList "register"⟩ := by
  intro source disk words
  obtain ⟨-, herror, hcheck⟩ := assemble_diagnose_agree source
  refine ⟨⟨rfl, rfl, rfl⟩, hcheck disk words ['p'] _ rfl rfl rfl, by decide, ?_⟩
  exact (herror _).mpr (by decide)

/-- The errors of some lines say what is wrong, and all of it. Their numbers increase and are those
of lines. With the lines made blank that they name, nothing is wrong and the program is the same.
A line is named exactly if it has a fault in a program of its own, and then for that fault, or if
its code does not fit behind that of the accepted lines before it. -/
theorem errors_blankOut (texts : List Text) :
    let errors := Program.empty.errors texts
    let kept := blankOut errors texts
    ((errors.Pairwise fun e e' => e.line < e'.line) ∧
        ∀ e ∈ errors, ∃ n, e.line = some n ∧ 1 ≤ n ∧ n ≤ texts.length) ∧
      (Program.empty.errors kept = [] ∧
        Program.empty.readThrough kept = Program.empty.readThrough texts) ∧
      (∀ e, e ∈ errors ↔ ∃ k text, texts[k]? = some text ∧ e.line = some (k + 1) ∧
        Rejected (((kept.take k).map Line.outcome).map positionsOf).sum (Line.outcome text)
          e.fault) ∧
      ∀ source, diagnose source = Program.empty.errors (Text.lines source) := by
  intro errors kept
  refine ⟨⟨Program.pairwise_errors _ texts, fun e he => ?_⟩, Program.run_blankOut texts,
    fun e => ?_, diagnose_eq_errors⟩
  · obtain ⟨n, hn, hlt, hle⟩ := Program.line_of_mem_errors he
    exact ⟨n, hn, hlt, by simpa [Program.empty] using hle⟩
  · rw [Program.mem_errors_iff, Line.outcome_eq_code]
    refine exists_congr fun k => exists_congr fun text => and_congr_right fun hk => ?_
    have hlt : k < texts.length := (List.getElem?_eq_some_iff.mp hk).1
    -- the lines before `k` have left the code of the accepted ones
    rw [Program.error?_eq_some_iff_rejected, Program.length_code_readThrough_take,
      Program.lines_readThrough, List.length_take_of_le hlt.le]
    simp [Program.empty, errors, kept]

/-- Two lines that are rejected between lines that are not. -/
theorem errors_blankOut_mixed :
    let texts := ["nop".toList, "sor r9".toList, [], "foo 1".toList, "sao".toList]
    let e : LineError := ⟨some 4, .unknownInstruction "foo".toList⟩
    blankOut (Program.empty.errors texts) texts = ["nop".toList, [], [], [], "sao".toList] ∧
      e ∈ Program.empty.errors texts ∧ ∃ n, e.line = some n ∧ 1 ≤ n ∧ n ≤ texts.length := by
  intro texts e
  have he : e ∈ Program.empty.errors texts := by decide
  exact ⟨by decide, he, (errors_blankOut texts).1.2 e he⟩

end TwinRom
