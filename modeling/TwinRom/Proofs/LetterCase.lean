import Mathlib.Data.List.Forall2
import TwinRom.Proofs.Layout
import TwinRom.Proofs.Runs

/-!
# Letter case

The letters `A` to `Z` may be written in either case. Texts that differ in nothing else
(`Text.Recased`) are those with the same lower case (`Text.recased_iff`), and every step of reading
a line commutes with `Text.lower`: its tokens are lowered (`Line.tokens_lower`), and its code is the
same (`Line.code_lower`), since names and operands are compared in lower case only.

What is left of the letter case are the tokens that some faults show (`Fault.lower`). So two runs
on lines that differ in letter case go through the same programs and reject the same lines for the
same reasons (`readThrough_recased`).
-/

namespace TwinRom

/-! ## Characters -/

/-- Two characters that are the same, or one letter in its two cases. -/
def SameLetter (c d : Char) : Prop :=
  c = d ∨ ∃ n < 26, c.toNat = 65 + n ∧ d.toNat = 97 + n ∨ c.toNat = 97 + n ∧ d.toNat = 65 + n

theorem toNat_toLower (c : Char) :
    c.toLower.toNat = if 65 ≤ c.toNat ∧ c.toNat ≤ 90 then c.toNat + 32 else c.toNat := by
  unfold Char.toLower
  split
  next h =>
    have hc : 65 ≤ c.toNat ∧ c.toNat ≤ 90 := h
    have hlt : c.toNat + 32 < 4294967296 := by omega
    rw [if_pos hc]
    exact (UInt32.toNat_add c.val 32).trans (Nat.mod_eq_of_lt hlt)
  next h =>
    have hc : ¬(65 ≤ c.toNat ∧ c.toNat ≤ 90) := h
    rw [if_neg hc]

/-- Characters are the same letter exactly if they are alike in lower case. -/
theorem sameLetter_iff {c d : Char} : SameLetter c d ↔ c.toLower = d.toLower := by
  rw [SameLetter, ← Char.toNat_inj, ← Char.toNat_inj, toNat_toLower, toNat_toLower]
  constructor
  · rintro (h | ⟨n, hn, h⟩)
    · rw [h]
    · split <;> split <;> omega
  · intro h
    by_cases hc : 65 ≤ c.toNat ∧ c.toNat ≤ 90
    · by_cases hd : 65 ≤ d.toNat ∧ d.toNat ≤ 90
      · rw [if_pos hc, if_pos hd] at h
        exact .inl (by omega)
      · rw [if_pos hc, if_neg hd] at h
        exact .inr ⟨c.toNat - 65, by omega, .inl (by omega)⟩
    · by_cases hd : 65 ≤ d.toNat ∧ d.toNat ≤ 90
      · rw [if_neg hc, if_pos hd] at h
        exact .inr ⟨d.toNat - 65, by omega, .inr (by omega)⟩
      · rw [if_neg hc, if_neg hd] at h
        exact .inl h

/-- Lowering makes no character that is not a letter. -/
theorem toLower_eq_iff {c d : Char} (hd : d.toNat < 65 ∨ 90 < d.toNat ∧ d.toNat < 97) :
    c.toLower = d ↔ c = d := by
  rw [← Char.toNat_inj, ← Char.toNat_inj, toNat_toLower]
  split <;> omega

/-- No letter is blank in one case only. -/
theorem isBlank_toLower (c : Char) : Text.isBlank c.toLower = Text.isBlank c := by
  rw [Bool.eq_iff_iff]
  simp only [Text.isBlank, toNat_toLower, Bool.or_eq_true, Bool.and_eq_true, decide_eq_true_eq,
    beq_iff_eq]
  split <;> omega

theorem isSeparator_toLower (c : Char) : Line.isSeparator c.toLower = Line.isSeparator c := by
  rw [Bool.eq_iff_iff]
  simp only [Line.isSeparator, Bool.or_eq_true, beq_iff_eq]
  rw [toLower_eq_iff (by decide), toLower_eq_iff (by decide), toLower_eq_iff (by decide)]

/-! ## Texts -/

namespace Text

/-- Two texts that differ at most in letter case. -/
def Recased (t u : Text) : Prop := List.Forall₂ SameLetter t u

/-- Texts differ in case only exactly if they are alike in lower case. -/
theorem recased_iff {t u : Text} : Recased t u ↔ lower t = lower u := by
  have hsame : SameLetter = fun c d => c.toLower = d.toLower :=
    funext₂ fun _ _ => propext sameLetter_iff
  rw [Recased, hsame, lower, lower, ← List.forall₂_eq_eq_eq, List.forall₂_map_left_iff,
    List.forall₂_map_right_iff]

instance (t u : Text) : Decidable (Recased t u) := decidable_of_iff _ recased_iff.symm

@[simp] theorem lower_nil : lower [] = [] := rfl

@[simp] theorem lower_cons (c : Char) (t : Text) : lower (c :: t) = c.toLower :: lower t := rfl

@[simp] theorem lower_lower (t : Text) : lower (lower t) = lower t := by
  rw [lower, lower, List.map_map]
  refine List.map_congr_left fun c _ => ?_
  rw [Function.comp_apply, ← Char.toNat_inj, toNat_toLower c.toLower, toNat_toLower]
  split
  next hc => rw [if_neg (by omega)]
  next => rfl

theorem dropWhile_isBlank_lower (t : Text) :
    (lower t).dropWhile isBlank = lower (t.dropWhile isBlank) := by
  have hcomp : isBlank ∘ Char.toLower = isBlank := funext isBlank_toLower
  rw [lower, List.dropWhile_map, hcomp]
  rfl

theorem reverse_lower (t : Text) : (lower t).reverse = lower t.reverse := by
  simp [lower]

/-- Trimming takes no notice of case. -/
theorem trim_lower (t : Text) : trim (lower t) = lower (trim t) := by
  rw [trim, trimEnd, trimStart, dropWhile_isBlank_lower, reverse_lower, dropWhile_isBlank_lower,
    reverse_lower]
  rfl

end Text

/-! ## Tokens -/

namespace Line

theorem flush_lower (token : Text) (tokens : List Text) :
    flush (Text.lower token) (tokens.map Text.lower) = (flush token tokens).map Text.lower := by
  cases token <;> simp

/-- A line in lower case has the tokens of the line, in lower case. -/
theorem scan_lower (t : Text) :
    scan (Text.lower t) = (scan t).map fun r => (Text.lower r.1, r.2.map Text.lower) := by
  fun_induction scan t with
  | case1 => rfl
  | case2 cs => rfl
  | case3 => rfl
  | case4 c cs ih =>
    have hback : Char.toLower '\\' = '\\' := rfl
    rw [Text.lower_cons, Text.lower_cons, hback, scan, ih]
    simp [Function.comp_def]
  | case5 c cs hsemi hback hback' hc ih =>
    rw [Text.lower_cons, scan_separator (by rwa [isSeparator_toLower]), ih]
    simp [Function.comp_def, flush_lower]
  | case6 c cs hsemi hback hback' hc ih =>
    have hne := ne_backslash hback hback'
    have hplain : isSpecial c.toLower = false := by
      rw [isSpecial_eq_false_iff, isSeparator_toLower, Ne, Ne, toLower_eq_iff (by decide),
        toLower_eq_iff (by decide)]
      exact ⟨Bool.eq_false_iff.mpr hc, hsemi, hne⟩
    rw [Text.lower_cons, scan_plain hplain, ih]
    simp [Function.comp_def]

/-- What is expected at the end of a malformed line does not depend on case. -/
theorem expectation_lower (t : Text) : expectation (Text.lower t) = expectation t := by
  have hiff : Text.lower t = ['\\'] ↔ t = ['\\'] := by
    match t with
    | [] => simp
    | [c] => simpa using toLower_eq_iff (by decide)
    | _ :: _ :: _ => simp
  simp only [expectation, hiff]

/-- The tokens of a line in lower case are its tokens in lower case. -/
theorem tokens_lower (t : Text) :
    Line.tokens (Text.lower t) = (Line.tokens t).map (List.map Text.lower) := by
  rw [Line.tokens, Line.tokens, scan_lower, expectation_lower]
  cases scan t with
  | none => rfl
  | some r => exact congrArg Except.ok (flush_lower r.1 r.2)

end Line

/-! ## Faults -/

/-- A fault with the token that it shows, if it shows one, in lower case. -/
def Fault.lower : Fault → Fault
  | unknownInstruction name => unknownInstruction (Text.lower name)
  | invalidOperand token => invalidOperand (Text.lower token)
  | fault => fault

/-- Two faults that differ at most in the letter case of the token that they show. -/
inductive Fault.Recased : Fault → Fault → Prop where
  | same (fault : Fault) : Recased fault fault
  | unknownInstruction {name name' : Text} (h : Text.Recased name name') :
      Recased (.unknownInstruction name) (.unknownInstruction name')
  | invalidOperand {token token' : Text} (h : Text.Recased token token') :
      Recased (.invalidOperand token) (.invalidOperand token')

/-- Faults that are alike in lower case quote texts that differ in case only. -/
theorem Fault.recased_of_lower_eq {f g : Fault} (h : f.lower = g.lower) : Recased f g := by
  cases f with
  | unknownInstruction name =>
    cases g with
    | unknownInstruction name' =>
      exact .unknownInstruction (Text.recased_iff.mpr (unknownInstruction.inj h))
    | _ => cases h
  | invalidOperand token =>
    cases g with
    | invalidOperand token' => exact .invalidOperand (Text.recased_iff.mpr (invalidOperand.inj h))
    | _ => cases h
  | _ =>
    cases g <;> cases h
    all_goals exact .same _

/-! ## Lines -/

/-- Instructions are named in either case. -/
theorem Mnemonic.ofText?_lower (t : Text) : ofText? (Text.lower t) = ofText? t := by
  rw [ofText?, ofText?, Text.trim_lower, Text.lower_lower]

theorem Operand.bounded_lower (kind : Kind) (number : Int) :
    (bounded kind number).mapError Fault.lower = bounded kind number := by
  unfold bounded
  split <;> rfl

/-- Operands are read in either case, and faults quote them as they are written. -/
theorem Operand.classify_lower (t : Text) :
    classify (Text.lower t) = (classify t).mapError Fault.lower := by
  simp only [classify, Text.lower_lower]
  cases number? (split (Text.lower t)).1 (split (Text.lower t)).2 with
  | none => rfl
  | some number => exact (bounded_lower _ number).symm

/-- A wrong number of operands is reported without quoting any text. -/
theorem checkArity_lower (m : Mnemonic) (got : Nat) :
    (checkArity m got).mapError Fault.lower = checkArity m got := by
  unfold checkArity
  split <;> rfl

/-- Statements are read in either case. -/
theorem Statement.ofTokens_lower (name : Text) (tokens : List Text) :
    ofTokens (Text.lower name) (tokens.map Text.lower) =
      (ofTokens name tokens).mapError Fault.lower := by
  rw [ofTokens, ofTokens, Mnemonic.ofText?_lower, List.length_map]
  cases Mnemonic.ofText? name with
  | none => rfl
  | some m =>
    simp only [bind_mapError, checkArity_lower, mapM_map_mapError Operand.classify_lower]
    rfl

/-- The faults of a statement that was read show no token. -/
theorem Statement.code_lower (s : Statement) : s.code.mapError Fault.lower = s.code := by
  cases hs : s.code with
  | ok code => rfl
  | error fault =>
    rcases Statement.fault_cases hs with ⟨_, rfl⟩ | rfl | ⟨_, rfl⟩ | ⟨_, rfl⟩ <;> rfl

/-- A line in lower case has the same code, or the same fault in lower case. -/
theorem Line.code_lower (t : Text) :
    Line.code (Text.lower t) = (Line.code t).mapError Fault.lower := by
  rw [Line.code, Line.code, Line.tokens_lower]
  cases ht : Line.tokens t with
  | error fault =>
    rw [Line.fault_of_tokens ht]
    rfl
  | ok tokens =>
    cases tokens with
    | nil => rfl
    | cons name operands =>
      have hcode := bind_mapError Fault.lower (Statement.ofTokens name operands) Statement.code
      simp only [Statement.code_lower, ← Statement.ofTokens_lower] at hcode
      exact hcode.symm

/-! ## Programs -/

/-- An error with the token that it shows, if it shows one, in lower case. -/
def LineError.lower (e : LineError) : LineError := ⟨e.line, e.fault.lower⟩

/-- Two errors on one line that differ at most in the letter case of the token that they show. -/
structure LineError.Recased (e e' : LineError) : Prop where
  line : e.line = e'.line
  fault : Fault.Recased e.fault e'.fault

namespace Program

variable {p : Program} {t u : Text}

theorem extend_lower (p : Program) (code : Fragment) :
    (p.extend code).mapError Fault.lower = p.extend code := by
  unfold extend
  split <;> rfl

/-- The code of a line does not depend on case, and neither does its fault but for what it quotes.
-/
theorem codeWith_lower (p : Program) (t : Text) :
    p.codeWith (Text.lower t) = (p.codeWith t).mapError Fault.lower := by
  simp only [codeWith, Line.code_lower, bind_mapError, extend_lower]

/-- A program does not depend on the case of its lines. -/
theorem read_lower (p : Program) (t : Text) : p.read (Text.lower t) = p.read t := by
  rw [read, read, codeWith_lower]
  cases p.codeWith t <;> rfl

/-- The error of a line in lower case is its error, with what it quotes in lower case. -/
theorem error?_lower (p : Program) (t : Text) :
    p.error? (Text.lower t) = (p.error? t).map LineError.lower := by
  rw [error?, error?, codeWith_lower]
  cases p.codeWith t <;> rfl

theorem read_recased (h : Text.Recased t u) : p.read t = p.read u := by
  rw [← read_lower p t, ← read_lower p u, Text.recased_iff.mp h]

/-- Lines that differ in case only have the same errors but for what these quote. -/
theorem error?_recased (h : Text.Recased t u) :
    Option.Rel LineError.Recased (p.error? t) (p.error? u) := by
  have hlower : (p.error? t).map LineError.lower = (p.error? u).map LineError.lower := by
    rw [← error?_lower, ← error?_lower, Text.recased_iff.mp h]
  cases ht : p.error? t with
  | none =>
    rw [ht, Option.map_none, eq_comm, Option.map_eq_none_iff] at hlower
    rw [hlower]
    exact .none
  | some e =>
    rw [ht, Option.map_some, eq_comm, Option.map_eq_some_iff] at hlower
    obtain ⟨e', he', heq⟩ := hlower
    rw [he']
    exact .some ⟨(congrArg LineError.line heq).symm,
      Fault.recased_of_lower_eq (congrArg LineError.fault heq).symm⟩

/-- Reading through lines that differ in case only gives the same program. -/
theorem readThrough_eq_of_forall₂ {texts texts' : List Text}
    (h : List.Forall₂ Text.Recased texts texts') (p : Program) :
    p.readThrough texts = p.readThrough texts' := by
  induction h generalizing p with
  | nil => rfl
  | @cons text text' texts texts' htext _ ih =>
    calc p.readThrough (text :: texts)
      _ = (p.read text).readThrough texts := rfl
      _ = (p.read text').readThrough texts := by rw [read_recased htext]
      _ = (p.read text').readThrough texts' := ih _

end Program

/-- Letter case does not matter. Two runs on lines that differ in letter case only are in the same
state after every line, and each line is accepted in both or rejected in both, on the same line and
for the same reason. Only a name that is unknown and an operand that is malformed are shown as they
are written. -/
theorem readThrough_recased {texts texts' : List Text}
    (h : List.Forall₂ Text.Recased texts texts') (k : Nat) :
    let p := Program.empty.readThrough (texts.take k)
    let p' := Program.empty.readThrough (texts'.take k)
    (p.lines = p'.lines ∧ p.code = p'.code) ∧
      ∀ text text', texts[k]? = some text → texts'[k]? = some text' →
        Option.Rel LineError.Recased (p.error? text) (p'.error? text') := by
  intro p p'
  have hp : p = p' := Program.readThrough_eq_of_forall₂ (List.forall₂_take k h) _
  refine ⟨⟨congrArg Program.lines hp, congrArg Program.code hp⟩, fun text text' ht ht' => ?_⟩
  obtain ⟨hk, rfl⟩ := List.getElem?_eq_some_iff.mp ht
  obtain ⟨hk', rfl⟩ := List.getElem?_eq_some_iff.mp ht'
  rw [← hp]
  exact Program.error?_recased (h.get hk hk')

/-- A line that is accepted in two spellings, and then one with an operand that is malformed in
both of them. -/
theorem readThrough_recased_mixed :
    let texts := ["Add A1,r7 ; Sum".toList, "SOR \\R1x".toList]
    let texts' := ["aDD a1,R7 ; sum".toList, "sor \\r1X".toList]
    List.Forall₂ Text.Recased texts texts' ∧
      let p := Program.empty.readThrough (texts.take 1)
      let p' := Program.empty.readThrough (texts'.take 1)
      ((p.lines = p'.lines ∧ p.code = p'.code) ∧
        Option.Rel LineError.Recased (p.error? "SOR \\R1x".toList)
          (p'.error? "sor \\r1X".toList)) ∧
      p.code.length = 5 ∧
      p.error? "SOR \\R1x".toList = some ⟨some 2, .invalidOperand "R1x".toList⟩ ∧
      p'.error? "sor \\r1X".toList = some ⟨some 2, .invalidOperand "r1X".toList⟩ := by
  intro texts texts'
  have h : List.Forall₂ Text.Recased texts texts' :=
    .cons (by decide) (.cons (by decide) .nil)
  obtain ⟨hstate, herror⟩ := readThrough_recased h 1
  exact ⟨h, ⟨hstate, herror _ _ rfl rfl⟩, by decide, by decide, by decide⟩

end TwinRom
