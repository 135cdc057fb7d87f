import Mathlib.Algebra.Ring.Nat
import Mathlib.Data.List.TakeDrop
import Mathlib.Data.Set.List
import TwinRom.Proofs.Runs

/-!
# Assembly line by line

The outcome of a line on its own is what it does to a program without code (`Line.outcome`). The
outcomes of its lines decide about a source (`assemble_linewise`): if each is code and the ROM has
room for all of it, the image holds one code behind the other, and otherwise the first line that
is rejected, or that does not fit behind the lines before it (`FailsAt`), is reported.
-/

namespace TwinRom

/-! ## Outcomes of lines -/

/-- What a line does to a program without code: the code it adds, or the fault it has. -/
def Line.outcome (text : Text) : Except Fault Fragment :=
  match Program.empty.error? text with
  | some e => .error e.fault
  | none => .ok (Program.empty.read text).code

/-- Every line alone fits into a ROM. -/
theorem Line.outcome_eq_code : Line.outcome = Line.code := by
  funext text
  unfold Line.outcome
  cases h : Line.code text with
  | error fault =>
    have he : Program.empty.error? text = some ⟨some 1, fault⟩ :=
      Program.error?_eq_some_iff.mpr ⟨Program.codeWith_eq_error_iff.mpr (.inl h), rfl⟩
    rw [he]
  | ok code =>
    have hfit : Program.empty.code.length + code.length ≤ romSize := by
      have := Line.length_le_of_code h
      show 0 + code.length ≤ 256
      omega
    have hcode := Program.codeWith_eq_ok_iff.mpr ⟨code, h, hfit, rfl⟩
    rw [Program.error?_eq_none_iff.mpr ⟨_, hcode⟩, Program.read_of_codeWith_eq_ok hcode]
    exact congrArg Except.ok (Fragment.empty_append code)

/-- The number of positions that a line with this outcome needs; a rejected line needs none. -/
def positionsOf : Except Fault Fragment → Nat
  | .ok code => code.length
  | .error _ => 0

theorem Fragment.length_concat : ∀ codes : List Fragment,
    (concat codes).length = (codes.map Fragment.length).sum
  | [] => rfl
  | f :: codes => by
    rw [concat_cons, length_append, length_concat codes, List.map_cons, List.sum_cons]

theorem sum_positionsOf (codes : List Fragment) :
    ((codes.map Except.ok).map positionsOf).sum = (Fragment.concat codes).length := by
  rw [Fragment.length_concat, List.map_map]
  rfl

/-! ## The first line that fails -/

/-- The line at `k` is rejected, or it is accepted on its own and the ROM has no room for the
lines up to it. -/
inductive FailsAt (outcomes : List (Except Fault Fragment)) (k : Nat) : Fault → Prop where
  | rejected {fault : Fault} (h : outcomes[k]? = some (.error fault)) : FailsAt outcomes k fault
  | overflow {code : Fragment} (h : outcomes[k]? = some (.ok code))
      (hover : romSize < ((outcomes.take (k + 1)).map positionsOf).sum) :
      FailsAt outcomes k (.romOverflow ((outcomes.take (k + 1)).map positionsOf).sum)

variable {outcomes : List (Except Fault Fragment)} {codes : List Fragment} {k : Nat}
  {fault : Fault}

theorem FailsAt.lt_length (h : FailsAt outcomes k fault) : k < outcomes.length := by
  rcases h with h | ⟨h, -⟩
  · exact (List.getElem?_eq_some_iff.mp h).1
  · exact (List.getElem?_eq_some_iff.mp h).1

/-- What fails behind some codes: an outcome that is a fault, or code that no longer fits. -/
theorem failsAt_length_iff {x : Except Fault Fragment} {rest : List (Except Fault Fragment)} :
    FailsAt (codes.map .ok ++ x :: rest) codes.length fault ↔ x = .error fault ∨
      ∃ code, x = .ok code ∧ romSize < (Fragment.concat codes).length + code.length ∧
        fault = .romOverflow ((Fragment.concat codes).length + code.length) := by
  have hget : (codes.map Except.ok ++ x :: rest)[codes.length]? = some x := by
    simp
  have hsum : ∀ code, x = .ok code →
      (((codes.map Except.ok ++ x :: rest).take (codes.length + 1)).map positionsOf).sum =
        (Fragment.concat codes).length + code.length := by
    rintro code rfl
    rw [List.take_append, List.length_map, Nat.add_sub_cancel_left,
      List.take_of_length_le (by simp), List.map_append, List.sum_append, sum_positionsOf]
    simp [positionsOf]
  constructor
  · rintro (h | ⟨h, hover⟩)
    · exact .inl (Option.some.inj (hget.symm.trans h))
    · have hx := Option.some.inj (hget.symm.trans h)
      rw [hsum _ hx] at hover ⊢
      exact .inr ⟨_, hx, hover, rfl⟩
  · rintro (rfl | ⟨code, hx, hover, rfl⟩)
    · exact .rejected hget
    · rw [← hsum code hx] at hover ⊢
      exact .overflow (hget.trans (congrArg some hx)) hover

/-- Codes that fit together do not fail. -/
theorem not_failsAt_of_fits (hle : (Fragment.concat codes).length ≤ romSize)
    (hk : k < codes.length) (rest : List (Except Fault Fragment)) :
    ¬FailsAt (codes.map .ok ++ rest) k fault := by
  have hget : (codes.map Except.ok ++ rest)[k]? = some (.ok codes[k]) := by
    rw [List.getElem?_append_left (by simpa using hk)]
    simp [hk]
  rintro (h | ⟨-, hover⟩)
  · rw [hget] at h
    cases h
  · rw [List.take_append_of_le_length (by rwa [List.length_map]), ← List.map_take, sum_positionsOf,
      Fragment.length_concat] at hover
    rw [Fragment.length_concat, ← List.take_append_drop (k + 1) codes, List.map_append,
      List.sum_append] at hle
    omega

/-- Up to the first line that fails there are codes, and they fit together. -/
theorem exists_codes_of_first (hk : k ≤ outcomes.length)
    (hfirst : ∀ j < k, ∀ fault, ¬FailsAt outcomes j fault) :
    ∃ codes : List Fragment, outcomes.take k = codes.map .ok ∧
      (Fragment.concat codes).length ≤ romSize := by
  have hall : ∀ x ∈ outcomes.take k, x ∈ Set.range Except.ok := by
    intro x hx
    obtain ⟨j, hj, rfl⟩ := List.mem_iff_getElem.mp hx
    rw [List.length_take, Nat.lt_min] at hj
    rw [List.getElem_take]
    cases hx : outcomes[j] with
    | ok code => exact ⟨code, rfl⟩
    | error fault =>
      refine absurd (FailsAt.rejected ?_) (hfirst j hj.1 fault)
      rw [List.getElem?_eq_getElem hj.2, hx]
  obtain ⟨codes, hcodes⟩ : outcomes.take k ∈ Set.range (List.map Except.ok) := by
    rw [Set.range_list_map]
    exact hall
  refine ⟨codes, hcodes.symm, ?_⟩
  -- the total of the lines before `k` is the one that decides about the last of them
  cases k with
  | zero =>
    rw [List.take_zero, List.map_eq_nil_iff] at hcodes
    rw [hcodes]
    exact Nat.zero_le romSize
  | succ j =>
    by_contra hover
    rw [← sum_positionsOf, hcodes, Nat.not_le] at hover
    obtain ⟨code, hcode⟩ := hall outcomes[j] (List.mem_take_iff_getElem.mpr ⟨j, by omega, rfl⟩)
    have hj : outcomes[j]? = some (.ok code) := by rw [List.getElem?_eq_getElem hk, hcode]
    exact hfirst j (Nat.lt_succ_self j) _ (.overflow hj hover)

/-! ## Whole sources -/

/-- The lines of a source are read up to the first that fails. -/
theorem readAll_eq_error_iff_failsAt {texts : List Text} {e : LineError} :
    Program.empty.readAll texts = .error e ↔ ∃ k, FailsAt (texts.map Line.code) k e.fault ∧
      (∀ j < k, ∀ fault, ¬FailsAt (texts.map Line.code) j fault) ∧ e.line = some (k + 1) := by
  rw [Program.readAll_eq_error_iff]
  constructor
  · rintro ⟨pre, text, post, q, rfl, hq, he⟩
    obtain ⟨codes, hcodes, hle, rfl⟩ := Program.readAll_empty_eq_ok_iff.mp hq
    obtain ⟨hfault, hline⟩ := Program.error?_eq_some_iff.mp he
    have hlen : pre.length = codes.length := by simpa using congrArg List.length hcodes
    rw [List.map_append, List.map_cons, hcodes]
    refine ⟨codes.length, ?_, fun j hj fault => not_failsAt_of_fits hle hj _, by rw [hline, hlen]⟩
    exact failsAt_length_iff.mpr (Program.codeWith_eq_error_iff.mp hfault)
  · rintro ⟨k, hfail, hfirst, hline⟩
    have hk : k < texts.length := by simpa using hfail.lt_length
    obtain ⟨codes, hcodes, hle⟩ := exists_codes_of_first (by simpa using hk.le) hfirst
    rw [← List.map_take] at hcodes
    obtain rfl : k = codes.length := by simpa [hk.le] using congrArg List.length hcodes
    refine ⟨texts.take codes.length, texts[codes.length], texts.drop (codes.length + 1),
      ⟨codes.length, Fragment.concat codes⟩, by simp, ?_, ?_⟩
    · exact Program.readAll_empty_eq_ok_iff.mpr ⟨codes, hcodes, hle, by simp [hk.le]⟩
    · refine Program.error?_eq_some_iff.mpr ⟨Program.codeWith_eq_error_iff.mpr ?_, hline⟩
      have hsplit : texts.map Line.code = codes.map .ok ++ Line.code texts[codes.length] ::
          (texts.drop (codes.length + 1)).map Line.code := by
        rw [← hcodes, ← List.map_cons, ← List.map_append, List.cons_getElem_drop_succ,
          List.take_append_drop]
      rw [hsplit] at hfail
      exact failsAt_length_iff.mp hfail

/-- The total that an overflow reports is that of fitting code and one more line. -/
theorem romOverflow_bounds {texts : List Text} {line : Option Nat} {n : Nat}
    (h : Program.empty.readAll texts = .error ⟨line, .romOverflow n⟩) :
    romSize < n ∧ n ≤ romSize + 9 := by
  obtain ⟨pre, text, post, q, -, hq, he⟩ := Program.readAll_eq_error_iff.mp h
  obtain ⟨codes, -, hle, rfl⟩ := Program.readAll_empty_eq_ok_iff.mp hq
  rcases Program.codeWith_eq_error_iff.mp (Program.error?_eq_some_iff.mp he).1 with
    hcode | ⟨added, hadded, hover, hn⟩
  · cases Line.isOfLine_of_code hcode
  · obtain rfl : n = (Fragment.concat codes).length + added.length := Fault.romOverflow.inj hn
    have hshort := Line.length_le_of_code hadded
    exact ⟨hover, Nat.add_le_add hle hshort⟩

/-- A source is assembled line by line: what a line gives is its outcome in a program of its own.
If every line has code and the ROM has room for all of it, the image holds the codes one behind
the other; otherwise the first line that has none, or whose code does not fit behind those before
it, is reported. A line without tokens has empty code and no line has more than nine positions of
it, which bounds the total that an overflow reports. -/
theorem assemble_linewise (source : Text) :
    let outcomes := (Text.lines source).map Line.outcome
    (∀ x, assemble source = .ok x ↔ ∃ codes : List Fragment, outcomes = codes.map .ok ∧
        (codes.map Fragment.length).sum ≤ romSize ∧
        x.usedInstructions = codes.flatMap Fragment.instructions ∧
        x.usedData = codes.flatMap Fragment.data) ∧
      (∀ e, assemble source = .error e ↔ ∃ k, FailsAt outcomes k e.fault ∧
        (∀ j < k, ∀ fault, ¬FailsAt outcomes j fault) ∧ e.line = some (k + 1)) ∧
      (∀ text, Line.tokens text = .ok [] → Line.outcome text = .ok .empty) ∧
      (∀ text code, Line.outcome text = .ok code → code.length ≤ 9) ∧
      ∀ line n, assemble source = .error ⟨line, .romOverflow n⟩ → 257 ≤ n ∧ n ≤ 265 := by
  rw [Line.outcome_eq_code]
  refine ⟨fun x => ?_, fun e => ?_, fun text ht => Line.code_eq_ok_iff.mpr (.inl ⟨ht, rfl⟩),
    fun text code => Line.length_le_of_code, fun line n h => ?_⟩
  · rw [assemble_eq_ok_iff]
    simp only [Fragment.length_concat, Fragment.instructions_concat, Fragment.data_concat]
  · rw [assemble_eq_error_iff, readAll_eq_error_iff_failsAt]
  · exact romOverflow_bounds (assemble_eq_error_iff.mp h)

end TwinRom
