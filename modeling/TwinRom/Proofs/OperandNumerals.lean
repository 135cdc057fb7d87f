import TwinRom.Proofs.LetterCase
import TwinRom.Proofs.Spelling

/-!
# Numbers in operands

What `Operand.classify` makes of a number. The texts that write one are listed in
`Operand.Numeral`, with the kind that they announce, the bound of that kind and the number in its
mathematical sense, however many digits it has.

Digits are read onto a magnitude that stops growing at a limit, and what stands behind them is
looked at only below it (`Text.clampedFrom?_append`). So a numeral is read as the nearest integer of
64 bits (`Text.clampedInt?_append`), which is within a bound of one byte exactly if the number
itself is (`clamp64_within`). Conversely, a text that is read is a numeral or starts with an integer
that 64 bits cannot hold (`Text.isInteger_or_overflows`). A text of the second kind is out of range,
so nothing but numerals is accepted (`classify_numeral`). Every text of neither kind is reported as
malformed (`classify_malformed`).
-/

namespace TwinRom

/-- The integer of 64 bits that is nearest to an integer. -/
def clamp64 (v : Int) : Int := max Int64.minValue.toInt (min v Int64.maxValue.toInt)

theorem clamp64_eq (v : Int) :
    clamp64 v = max (-((Text.greatest + 1 : Nat) : Int)) (min v Text.greatest) := rfl

/-- An integer is within the bound of a byte exactly if the nearest of 64 bits is, and then they are
the same. -/
theorem clamp64_within {v : Int} {bound : Nat} (hb : bound ≤ 255) :
    (0 ≤ clamp64 v ∧ clamp64 v ≤ bound ↔ 0 ≤ v ∧ v ≤ bound) ∧
      (0 ≤ v ∧ v ≤ bound → clamp64 v = v) := by
  rw [clamp64_eq, Text.greatest]
  omega

namespace Text

/-! ## Rows of digits -/

/-- Decimal digits, at least one. -/
structure IsDigits (ds : Text) : Prop where
  ne_nil : ds ≠ []
  isDigit : ∀ c ∈ ds, c.isDigit = true

instance (ds : Text) : Decidable (IsDigits ds) :=
  -- over the text, not over all characters
  decidable_of_iff (ds ≠ [] ∧ ds.all Char.isDigit = true)
    ⟨fun h => ⟨h.1, List.all_eq_true.mp h.2⟩, fun h => ⟨h.ne_nil, List.all_eq_true.mpr h.isDigit⟩⟩

/-- The number that decimal digits write. -/
def value (ds : Text) : Nat := Nat.ofDigitChars 10 ds 0

theorem le_ofDigitChars : ∀ (ds : Text) (n : Nat), n ≤ Nat.ofDigitChars 10 ds n
  | [], n => Nat.le_refl n
  | c :: cs, n => by
    rw [Nat.ofDigitChars_cons]
    exact Nat.le_trans (by omega) (le_ofDigitChars cs _)

/-- Digits are read onto the magnitude, and what stands behind them is read onto their number,
unless that exceeds the limit. -/
theorem clampedFrom?_append {limit : Nat} (back : Text) : ∀ {ds : Text},
    (∀ c ∈ ds, c.isDigit = true) → ∀ {n : Nat}, n ≤ limit → clampedFrom? limit n (ds ++ back) =
      if Nat.ofDigitChars 10 ds n ≤ limit then clampedFrom? limit (Nat.ofDigitChars 10 ds n) back
      else some limit
  | [], _, n, hn => (if_pos hn).symm
  | c :: cs, h, n, hn => by
    obtain ⟨hc, hcs⟩ := List.forall_mem_cons.mp h
    rw [List.cons_append, clampedFrom?, digit?_of_isDigit hc, Nat.ofDigitChars_cons,
      Nat.mul_comm 10 n]
    by_cases hle : n * 10 + (c.toNat - '0'.toNat) ≤ limit
    · simp only [if_pos hle]
      exact clampedFrom?_append back hcs hle
    · -- further digits only make the number greater
      have hge := le_ofDigitChars cs (n * 10 + (c.toNat - '0'.toNat))
      simp only [if_neg hle]
      rw [if_neg (by omega)]

theorem isDigit_of_digit? {c : Char} {d : Nat} (h : digit? 10 c = some d) : c.isDigit = true := by
  obtain ⟨hvalue, hd⟩ := Option.filter_eq_some_iff.mp h
  have hlt : d < 10 := of_decide_eq_true hd
  unfold digitValue? at hvalue
  split at hvalue
  next hc => exact Bool.and_eq_true_iff.mpr ⟨decide_eq_true hc.1, decide_eq_true hc.2⟩
  next =>
    -- the letters are worth ten or more
    split at hvalue
    next => exact absurd (Option.some.inj hvalue) (by omega)
    next =>
      split at hvalue
      next => exact absurd (Option.some.inj hvalue) (by omega)
      next => cases hvalue

/-- A text that is read is digits, or starts with digits whose number exceeds the limit. -/
theorem isDigit_or_exceeds {limit k : Nat} : ∀ {t : Text} {n : Nat},
    clampedFrom? limit n t = some k → (∀ c ∈ t, c.isDigit = true) ∨
      ∃ front back, t = front ++ back ∧ (∀ c ∈ front, c.isDigit = true) ∧
        limit < Nat.ofDigitChars 10 front n
  | [], _, _ => .inl (List.forall_mem_nil _)
  | c :: cs, n, h => by
    rw [clampedFrom?] at h
    split at h
    next d hd =>
      have hc := isDigit_of_digit? hd
      obtain rfl : d = c.toNat - '0'.toNat :=
        Option.some.inj (hd.symm.trans (digit?_of_isDigit hc))
      split at h
      next =>
        rcases isDigit_or_exceeds h with hcs | ⟨front, back, rfl, hfront, hlt⟩
        · exact .inl (List.forall_mem_cons.mpr ⟨hc, hcs⟩)
        · refine .inr ⟨c :: front, back, rfl, List.forall_mem_cons.mpr ⟨hc, hfront⟩, ?_⟩
          rwa [Nat.ofDigitChars_cons, Nat.mul_comm 10 n]
      next hgt =>
        refine .inr ⟨[c], cs, rfl, List.forall_mem_singleton.mpr hc, ?_⟩
        rw [Nat.ofDigitChars_cons, Nat.mul_comm 10 n, Nat.ofDigitChars_nil]
        exact Nat.lt_of_not_le hgt
    next => cases h

/-- A row of digits is read as its number, or as the limit if the number exceeds it. What stands
behind the digits matters only as long as they do not exceed the limit. -/
theorem IsDigits.clampedNat?_append {ds : Text} (h : IsDigits ds) {limit : Nat} {back : Text}
    (hback : back = [] ∨ limit < value ds) :
    clampedNat? limit (ds ++ back) = some (min (value ds) limit) := by
  obtain ⟨c, cs, rfl⟩ := List.exists_cons_of_ne_nil h.ne_nil
  refine (clampedFrom?_append back h.isDigit (Nat.zero_le limit)).trans ?_
  by_cases hle : value (c :: cs) ≤ limit
  · obtain rfl := hback.resolve_right (Nat.not_lt.mpr hle)
    rw [Nat.min_eq_left hle]
    exact if_pos hle
  · rw [Nat.min_eq_right (Nat.le_of_not_le hle)]
    exact if_neg hle

theorem isDigits_or_exceeds {limit k : Nat} {t : Text} (h : clampedNat? limit t = some k) :
    IsDigits t ∨ ∃ front back, t = front ++ back ∧ IsDigits front ∧ limit < value front := by
  cases t with
  | nil => cases h
  | cons c cs =>
    rcases isDigit_or_exceeds h with hdigits | ⟨front, back, heq, hfront, hlt⟩
    · exact .inl ⟨List.cons_ne_nil c cs, hdigits⟩
    · refine .inr ⟨front, back, heq, ⟨?_, hfront⟩, hlt⟩
      rintro rfl
      exact Nat.not_lt_zero limit hlt

/-! ## Integers -/

/-- Digits with at most one sign, and the integer that they write. -/
inductive IsInteger : Int → Text → Prop where
  | unsigned {ds : Text} (h : IsDigits ds) : IsInteger (value ds) ds
  | plus {ds : Text} (h : IsDigits ds) : IsInteger (value ds) ('+' :: ds)
  | minus {ds : Text} (h : IsDigits ds) : IsInteger (-value ds) ('-' :: ds)

theorem IsInteger.ne_nil {v : Int} {t : Text} (h : IsInteger v t) : t ≠ [] := by
  cases h with
  | unsigned h => exact h.ne_nil
  | plus h => exact List.cons_ne_nil _ _
  | minus h => exact List.cons_ne_nil _ _

theorem clampedInt?_unsigned {ds : Text} (h : IsDigits ds) (back : Text) :
    clampedInt? (ds ++ back) = (clampedNat? greatest (ds ++ back)).map Int.ofNat := by
  obtain ⟨c, cs, rfl⟩ := List.exists_cons_of_ne_nil h.ne_nil
  have hc : c.isDigit = true := h.isDigit c List.mem_cons_self
  unfold clampedInt?
  split
  next heq =>
    obtain ⟨rfl, -⟩ := List.cons.inj heq
    exact absurd hc (by decide)
  next heq =>
    obtain ⟨rfl, -⟩ := List.cons.inj heq
    exact absurd hc (by decide)
  next => rfl

/-- Every integer is read as the nearest of 64 bits. What stands behind it matters only as long as
64 bits can hold it. -/
theorem clampedInt?_append {v : Int} {t back : Text} (h : IsInteger v t)
    (hback : back = [] ∨ clamp64 v ≠ v) : clampedInt? (t ++ back) = some (clamp64 v) := by
  rw [clamp64_eq] at hback ⊢
  cases h with
  | unsigned h =>
    rw [clampedInt?_unsigned h, h.clampedNat?_append (hback.imp_right fun _ => by omega),
      Option.map_some, Option.some.injEq, Int.ofNat_eq_natCast]
    omega
  | plus h =>
    rw [List.cons_append, clampedInt?, h.clampedNat?_append (hback.imp_right fun _ => by omega),
      Option.map_some, Option.some.injEq, Int.ofNat_eq_natCast]
    omega
  | minus h =>
    -- below zero there is room for one more
    rw [List.cons_append, clampedInt?, h.clampedNat?_append (hback.imp_right fun _ => by omega),
      Option.map_some, Option.some.injEq, Int.ofNat_eq_natCast]
    omega

theorem clampedInt?_of_isInteger {v : Int} {t : Text} (h : IsInteger v t) :
    clampedInt? t = some (clamp64 v) := by
  rw [← clampedInt?_append h (.inl rfl), List.append_nil]

/-- An integer that 64 bits cannot hold stands at the start of a text, whatever follows it. -/
def Overflows (v : Int) (t : Text) : Prop :=
  clamp64 v ≠ v ∧ ∃ front back, IsInteger v front ∧ t = front ++ back

/-- A text that is read is an integer, or starts with one that 64 bits cannot hold. -/
theorem isInteger_or_overflows {t : Text} {k : Int} (h : clampedInt? t = some k) :
    ∃ v, IsInteger v t ∨ Overflows v t := by
  unfold clampedInt? at h
  split at h
  all_goals
    obtain ⟨n, hn, -⟩ := Option.map_eq_some_iff.mp h
    rcases isDigits_or_exceeds hn with hds | ⟨front, back, rfl, hfront, hlt⟩
  · exact ⟨_, .inl (.plus hds)⟩
  · exact ⟨_, .inr ⟨by rw [clamp64_eq]; omega, _, back, .plus hfront, rfl⟩⟩
  · exact ⟨_, .inl (.minus hds)⟩
  · exact ⟨_, .inr ⟨by rw [clamp64_eq]; omega, _, back, .minus hfront, rfl⟩⟩
  · exact ⟨_, .inl (.unsigned hds)⟩
  · exact ⟨_, .inr ⟨by rw [clamp64_eq]; omega, _, back, .unsigned hfront, rfl⟩⟩

/-! ## Case -/

theorem lower_eq_iff {u : Text} (hu : ∀ c ∈ u, c.toNat < 65) {t : Text} : lower t = u ↔ t = u := by
  induction t generalizing u with
  | nil => rfl
  | cons c t ih =>
    cases u with
    | nil => simp
    | cons d u =>
      obtain ⟨hd, hu⟩ := List.forall_mem_cons.mp hu
      rw [lower_cons, List.cons.injEq, List.cons.injEq, toLower_eq_iff (.inl hd), ih hu]

theorem IsDigits.toNat_lt {ds : Text} (h : IsDigits ds) : ∀ c ∈ ds, c.toNat < 65 := by
  intro c hc
  have hle := (toNat_of_isDigit (h.isDigit c hc)).2
  omega

theorem IsInteger.toNat_lt {v : Int} {t : Text} (h : IsInteger v t) : ∀ c ∈ t, c.toNat < 65 := by
  cases h with
  | unsigned h => exact h.toNat_lt
  | plus h => exact List.forall_mem_cons.mpr ⟨by decide, h.toNat_lt⟩
  | minus h => exact List.forall_mem_cons.mpr ⟨by decide, h.toNat_lt⟩

/-- Letter case matters neither to an integer nor behind it. -/
theorem overflows_lower_iff {v : Int} {t : Text} : Overflows v (lower t) ↔ Overflows v t := by
  refine and_congr_right fun _ => ⟨?_, ?_⟩
  · rintro ⟨front, back, hfront, heq⟩
    obtain ⟨front', back', rfl, hlower, -⟩ := List.map_eq_append_iff.mp heq
    obtain rfl := (lower_eq_iff hfront.toNat_lt).mp hlower
    exact ⟨front', back', hfront, rfl⟩
  · rintro ⟨front, back, hfront, rfl⟩
    refine ⟨front, lower back, hfront, ?_⟩
    rw [lower, List.map_append]
    exact congrArg (· ++ lower back) ((lower_eq_iff hfront.toNat_lt).mpr rfl)

end Text

/-- A letter is lowered from either case of it. -/
theorem toLower_eq_iff_of_letter {c lo up : Char} (h : lo.toNat = up.toNat + 32)
    (hup : 65 ≤ up.toNat ∧ up.toNat ≤ 90) : c.toLower = lo ↔ c = lo ∨ c = up := by
  rw [← Char.toNat_inj, ← Char.toNat_inj, ← Char.toNat_inj, toNat_toLower]
  split <;> omega

namespace Operand

/-! ## Numerals -/

/-- The texts that write a number as an operand, with the kind of operand that they announce, the
greatest number of that kind, and the number itself. -/
inductive Numeral : Kind → Nat → Int → Text → Prop where
  | register {c : Char} {ds : Text} (hc : c = 'r' ∨ c = 'R') (h : Text.IsDigits ds) :
    Numeral .register 7 (Text.value ds) (c :: ds)
  | address {c : Char} {ds : Text} (hc : c = 'a' ∨ c = 'A') (h : Text.IsDigits ds) :
    Numeral .address 255 (Text.value ds) (c :: ds)
  | immediate {v : Int} {t : Text} (h : Text.IsInteger v t) : Numeral .immediate 255 v t

theorem toLower_eq_r_iff {c : Char} : c.toLower = 'r' ↔ c = 'r' ∨ c = 'R' :=
  toLower_eq_iff_of_letter (by decide) (by decide)

theorem toLower_eq_a_iff {c : Char} : c.toLower = 'a' ↔ c = 'a' ∨ c = 'A' :=
  toLower_eq_iff_of_letter (by decide) (by decide)

theorem Numeral.bound_eq {kind : Kind} {bound : Nat} {v : Int} {t : Text}
    (h : Numeral kind bound v t) : kind.bound.toNat = bound := by
  cases h <;> rfl

/-- A token announces a register or a cell by its first letter, and else an immediate. -/
theorem split_cases (t : Text) :
    (∃ ds, t = 'r' :: ds ∧ split t = (.register, ds)) ∨
      (∃ ds, t = 'a' :: ds ∧ split t = (.address, ds)) ∨ split t = (.immediate, t) := by
  unfold split
  split
  next ds => exact .inl ⟨ds, rfl, rfl⟩
  next ds => exact .inr (.inl ⟨ds, rfl, rfl⟩)
  next => exact .inr (.inr rfl)

theorem split_of_isInteger {v : Int} {t : Text} (h : Text.IsInteger v t) (back : Text) :
    split (t ++ back) = (.immediate, t ++ back) := by
  obtain ⟨c, cs, rfl⟩ := List.exists_cons_of_ne_nil h.ne_nil
  have hc := h.toNat_lt c List.mem_cons_self
  rcases split_cases (c :: cs ++ back) with ⟨ds, heq, -⟩ | ⟨ds, heq, -⟩ | ht
  · obtain ⟨rfl, -⟩ := List.cons.inj heq
    exact absurd hc (by decide)
  · obtain ⟨rfl, -⟩ := List.cons.inj heq
    exact absurd hc (by decide)
  · exact ht

/-- Plain digits are a number of every kind. -/
theorem number?_of_isDigits (kind : Kind) {ds : Text} (h : Text.IsDigits ds) :
    number? kind ds = some (clamp64 (Text.value ds)) := by
  have hread := Text.clampedInt?_of_isInteger (.unsigned h)
  unfold number?
  split
  next => exact hread
  next => rw [if_pos (List.all_eq_true.mpr h.isDigit), hread]

/-- Every numeral is read as its kind and the nearest number of 64 bits. -/
theorem Numeral.number?_eq {kind : Kind} {bound : Nat} {v : Int} {t : Text}
    (h : Numeral kind bound v t) :
    ∃ digits, split (Text.lower t) = (kind, digits) ∧ number? kind digits = some (clamp64 v) := by
  cases h with
  | @register c ds hc h =>
    refine ⟨ds, ?_, number?_of_isDigits _ h⟩
    rw [Text.lower_cons, toLower_eq_r_iff.mpr hc, (Text.lower_eq_iff h.toNat_lt).mpr rfl, split]
  | @address c ds hc h =>
    refine ⟨ds, ?_, number?_of_isDigits _ h⟩
    rw [Text.lower_cons, toLower_eq_a_iff.mpr hc, (Text.lower_eq_iff h.toNat_lt).mpr rfl, split]
  | immediate h =>
    have hsplit := split_of_isInteger h []
    rw [List.append_nil] at hsplit
    refine ⟨t, ?_, Text.clampedInt?_of_isInteger h⟩
    rw [(Text.lower_eq_iff h.toNat_lt).mpr rfl, hsplit]

/-- A number is held against the bound of its kind as if it had not been clamped. -/
theorem bounded_clamp64 (kind : Kind) (v : Int) :
    bounded kind (clamp64 v) =
      if 0 ≤ v ∧ v ≤ kind.bound.toNat then .ok (ofKind kind (UInt8.ofNat v.toNat))
      else .error (.outOfRange kind (clamp64 v) kind.bound.toNat) := by
  obtain ⟨hiff, heq⟩ := clamp64_within (v := v) (Nat.le_of_lt_succ kind.bound.toNat_lt)
  unfold bounded
  by_cases hv : 0 ≤ v ∧ v ≤ kind.bound.toNat
  · rw [if_pos (hiff.mpr hv), if_pos hv, heq hv]
  · rw [if_neg (mt hiff.mp hv), if_neg hv]

/-- Behind the letter of a register or a cell stand digits only. -/
theorem isDigits_of_number? {kind : Kind} (hkind : kind ≠ .immediate) {digits : Text} {k : Int}
    (h : number? kind digits = some k) : Text.IsDigits digits := by
  unfold number? at h
  split at h
  next => exact absurd rfl hkind
  next =>
    split at h
    next hall =>
      refine ⟨?_, List.all_eq_true.mp hall⟩
      rintro rfl
      cases h
    next => cases h

/-- A token that is read with a letter is that letter, in either case, and digits. -/
theorem eq_cons_of_number? {token ds : Text} {l : Char} {kind : Kind} {k : Int}
    (hlower : Text.lower token = l :: ds) (hkind : kind ≠ .immediate)
    (h : number? kind ds = some k) : ∃ c, token = c :: ds ∧ c.toLower = l ∧ Text.IsDigits ds := by
  have hds := isDigits_of_number? hkind h
  obtain ⟨c, t, rfl, hc, ht⟩ := List.map_eq_cons_iff.mp hlower
  obtain rfl := (Text.lower_eq_iff hds.toNat_lt).mp ht
  exact ⟨c, rfl, hc, hds⟩

/-- A token that is read is a numeral, or starts with an integer that 64 bits cannot hold. -/
theorem numeral_or_overflows {token digits : Text} {kind : Kind} {k : Int}
    (hs : split (Text.lower token) = (kind, digits)) (h : number? kind digits = some k) :
    (∃ bound v, Numeral kind bound v token) ∨ ∃ v, Text.Overflows v token := by
  rcases split_cases (Text.lower token) with ⟨ds, hlower, hs'⟩ | ⟨ds, hlower, hs'⟩ | hs'
  all_goals obtain ⟨rfl, rfl⟩ := Prod.mk.inj (hs.symm.trans hs')
  · obtain ⟨c, rfl, hc, hds⟩ := eq_cons_of_number? hlower (by decide) h
    exact .inl ⟨_, _, .register (toLower_eq_r_iff.mp hc) hds⟩
  · obtain ⟨c, rfl, hc, hds⟩ := eq_cons_of_number? hlower (by decide) h
    exact .inl ⟨_, _, .address (toLower_eq_a_iff.mp hc) hds⟩
  · obtain ⟨v, hv | hv⟩ := Text.isInteger_or_overflows h
    · -- signs and digits have no case
      have htoken : token = Text.lower token := (Text.lower_eq_iff hv.toNat_lt).mp rfl
      rw [← htoken] at hv
      exact .inl ⟨_, _, .immediate hv⟩
    · exact .inr ⟨v, Text.overflows_lower_iff.mp hv⟩

/-- An integer that 64 bits cannot hold is out of range, and hides what stands behind it. -/
theorem classify_of_overflows {token : Text} {v : Int} (h : Text.Overflows v token) :
    classify token = .error (.outOfRange .immediate (clamp64 v) 255) := by
  obtain ⟨hv, front, back, hfront, heq⟩ := Text.overflows_lower_iff.mpr h
  have hrange : ¬(0 ≤ v ∧ v ≤ Kind.immediate.bound.toNat) :=
    fun hle => hv ((clamp64_within (by decide)).2 hle)
  rw [classify, heq, split_of_isInteger hfront]
  simp only [number?, Text.clampedInt?_append hfront (.inr hv)]
  rw [bounded_clamp64, if_neg hrange]
  rfl

/-- What a token can be. -/
theorem classify_cases (token : Text) :
    (∃ kind bound v, Numeral kind bound v token) ∨ (∃ v, Text.Overflows v token) ∨
      classify token = .error (.invalidOperand token) := by
  obtain ⟨kind, digits, hs⟩ : ∃ kind digits, split (Text.lower token) = (kind, digits) :=
    ⟨_, _, rfl⟩
  rw [classify, hs]
  cases hk : number? kind digits with
  | some k =>
    rcases numeral_or_overflows hs hk with ⟨bound, v, hv⟩ | hv
    · exact .inl ⟨kind, bound, v, hv⟩
    · exact .inr (.inl hv)
  | none => exact .inr (.inr (by simp only [hk]))

/-- Only numerals are accepted. -/
theorem exists_numeral_of_classify {token : Text} {o : Operand} (h : classify token = .ok o) :
    ∃ kind bound v, Numeral kind bound v token := by
  rcases classify_cases token with hnumeral | ⟨v, hv⟩ | hinvalid
  · exact hnumeral
  · exact absurd (h.symm.trans (classify_of_overflows hv)) (by simp)
  · exact absurd (h.symm.trans hinvalid) (by simp)

end Operand

/-- Numbers are read exactly. A numeral of any length gives the operand with its number if the
number is within the bound of its kind, and is otherwise out of range, with the nearest number of 64
bits in the message. Nothing else is accepted. -/
theorem classify_numeral (token : Text) :
    (∀ kind bound v, Operand.Numeral kind bound v token →
      Operand.classify token =
        if 0 ≤ v ∧ v ≤ bound then .ok (.ofKind kind (UInt8.ofNat v.toNat))
        else .error (.outOfRange kind (clamp64 v) bound)) ∧
      ∀ o, Operand.classify token = .ok o → ∃ kind bound v, Operand.Numeral kind bound v token := by
  refine ⟨?_, fun o => Operand.exists_numeral_of_classify⟩
  intro kind bound v h
  obtain ⟨digits, hsplit, hnumber⟩ := h.number?_eq
  rw [Operand.classify, hsplit]
  simp only [hnumber]
  rw [Operand.bounded_clamp64, h.bound_eq]

theorem classify_numeral_one_too_long :
    Operand.Numeral .register 7 9223372036854775808 ('R' :: "009223372036854775808".toList) ∧
      Operand.classify ('R' :: "009223372036854775808".toList) =
        .error (.outOfRange .register 9223372036854775807 7) ∧
      Operand.Numeral .immediate 255 0 ('-' :: "00".toList) ∧
      Operand.classify ('-' :: "00".toList) = .ok (.immediate 0) := by
  have hdigits : Text.IsDigits "009223372036854775808".toList := by decide
  have hlong := Operand.Numeral.register (.inr rfl : 'R' = 'r' ∨ 'R' = 'R') hdigits
  have hzeros : Text.IsDigits "00".toList := by decide
  have hzero := Operand.Numeral.immediate (.minus hzeros)
  exact ⟨hlong, (classify_numeral _).1 _ _ _ hlong, hzero, (classify_numeral _).1 _ _ _ hzero⟩

/-! ## Malformed tokens -/

/-- Behind the first character of a numeral stand digits only. -/
theorem Operand.Numeral.isDigit_of_mem_tail {kind : Operand.Kind} {bound : Nat} {v : Int} {t : Text}
    (h : Operand.Numeral kind bound v t) : ∀ c ∈ t.tail, c.isDigit = true := by
  cases h with
  | register _ h => exact h.isDigit
  | address _ h => exact h.isDigit
  | immediate h =>
    cases h with
    | unsigned h => exact fun c hc => h.isDigit c (List.mem_of_mem_tail hc)
    | plus h => exact h.isDigit
    | minus h => exact h.isDigit

/-- A token that is no numeral is reported as it is written, unless it starts with an integer that
64 bits cannot hold. The scan has then ended before it came to what makes the token malformed, and
the nearest integer of 64 bits is reported as out of range. -/
theorem classify_malformed {token : Text}
    (h : ∀ kind bound v, ¬Operand.Numeral kind bound v token) :
    ((∀ v, ¬Text.Overflows v token) →
        Operand.classify token = .error (.invalidOperand token)) ∧
      ∀ v, Text.Overflows v token →
        Operand.classify token = .error (.outOfRange .immediate (clamp64 v) 255) := by
  refine ⟨fun hfits => ?_, fun v => Operand.classify_of_overflows⟩
  rcases Operand.classify_cases token with ⟨kind, bound, v, hv⟩ | ⟨v, hv⟩ | hinvalid
  · exact absurd hv (h kind bound v)
  · exact absurd hv (hfits v)
  · exact hinvalid

/-- A sign lets the scan run into the limit. Behind a letter all characters are looked at first. -/
theorem classify_malformed_past_limit :
    let signed := "-9223372036854775809X".toList
    let lettered := "R9223372036854775808X".toList
    (∀ kind bound v, ¬Operand.Numeral kind bound v signed) ∧
      Text.Overflows (-9223372036854775809) signed ∧
      Operand.classify signed = .error (.outOfRange .immediate (-9223372036854775808) 255) ∧
      (∀ kind bound v, ¬Operand.Numeral kind bound v lettered) ∧
      (∀ v, ¬Text.Overflows v lettered) ∧
      Operand.classify lettered = .error (.invalidOperand lettered) := by
  intro signed lettered
  have hsigned : ∀ kind bound v, ¬Operand.Numeral kind bound v signed :=
    fun _ _ _ h => absurd (h.isDigit_of_mem_tail 'X' (by decide)) (by decide)
  have hover : Text.Overflows (-9223372036854775809) signed :=
    ⟨by decide, "-9223372036854775809".toList, ['X'],
      .minus (by decide : Text.IsDigits "9223372036854775809".toList), rfl⟩
  have hlettered : ∀ kind bound v, ¬Operand.Numeral kind bound v lettered :=
    fun _ _ _ h => absurd (h.isDigit_of_mem_tail 'X' (by decide)) (by decide)
  have hfits : ∀ v, ¬Text.Overflows v lettered := by
    rintro v ⟨-, front, back, hfront, heq⟩
    obtain ⟨c, cs, rfl⟩ := List.exists_cons_of_ne_nil hfront.ne_nil
    obtain ⟨rfl, -⟩ := List.cons.inj heq
    exact absurd (hfront.toNat_lt 'R' List.mem_cons_self) (by decide)
  exact ⟨hsigned, hover, (classify_malformed hsigned).2 _ hover, hlettered, hfits,
    (classify_malformed hlettered).1 hfits⟩

/-- Not every malformed token is reported as one. -/
theorem classify_malformed_digits_first :
    let token := "99999999999999999999x".toList
    (∀ kind bound v, ¬Operand.Numeral kind bound v token) ∧
      Operand.classify token ≠ .error (.invalidOperand token) ∧
      Operand.classify token = .error (.outOfRange .immediate 9223372036854775807 255) := by
  intro token
  have hclassify :
      Operand.classify token = .error (.outOfRange .immediate 9223372036854775807 255) := rfl
  refine ⟨fun _ _ _ h => absurd (h.isDigit_of_mem_tail 'x' (by decide)) (by decide), ?_, hclassify⟩
  rw [hclassify]
  simp

end TwinRom
