import Mathlib.Data.List.Induction
import TwinRom.Proofs.Spelling

/-!
# Numbers in any spelling

A number can be written with any zeros in front of it and with its letters in either case.
`Text.IsDigitOf` says which characters have which value, and `Text.WritesNat` which rows of digits
write a number; neither says how one is read. Reading finds the number that is written and accepts
no other text (`Text.nat?_eq_some_iff`), with or without a plus sign in front if a byte is wanted
(`Text.byte?_of_writesNat`, `Text.byte?_plus`).
-/

namespace TwinRom.Text

/-! ## Digits -/

/-- A digit of a radix with its value, in either case. No digit is worth more than `F`. -/
structure IsDigitOf (radix value : Nat) (c : Char) : Prop where
  lt_radix : value < radix
  lt_sixteen : value < 16
  spelled : c = upperDigit value ∨ c = lowerDigit value

/-- A character in a row of digits that starts at `first` is told by its distance from it. -/
theorem eq_ofNat_of_le {first c : Char} (h : first ≤ c) :
    c = Char.ofNat (first.toNat + (c.toNat - first.toNat)) := by
  have hle : first.toNat ≤ c.toNat := UInt32.le_iff_toNat_le.mp h
  rw [Nat.add_sub_cancel' hle, Char.ofNat_toNat]

/-- A digit has its value in either case. -/
theorem digitValue?_eq_some_iff {c : Char} {v : Nat} :
    digitValue? c = some v ↔ v < 16 ∧ (c = upperDigit v ∨ c = lowerDigit v) := by
  refine ⟨fun h => ?_, ?_⟩
  · have hdecimal : ∀ d < 10, Char.ofNat ('0'.toNat + d) = upperDigit d := by decide
    have hlower : ∀ d < 6, Char.ofNat ('a'.toNat + d) = lowerDigit (d + 10) := by decide
    have hupper : ∀ d < 6, Char.ofNat ('A'.toNat + d) = upperDigit (d + 10) := by decide
    have hlt : ∀ {first last : Char}, c ≤ last →
        c.toNat - first.toNat < last.toNat - first.toNat + 1 := by
      intro first last hlast
      have hle : c.toNat ≤ last.toNat := UInt32.le_iff_toNat_le.mp hlast
      omega
    unfold digitValue? at h
    split at h
    next hc =>
      have hv : c.toNat - '0'.toNat < 10 := hlt hc.2
      rw [← Option.some.inj h]
      exact ⟨by omega, .inl ((eq_ofNat_of_le hc.1).trans (hdecimal _ hv))⟩
    next =>
      split at h
      next hc =>
        have hv : c.toNat - 'a'.toNat < 6 := hlt hc.2
        rw [← Option.some.inj h]
        exact ⟨by omega, .inr ((eq_ofNat_of_le hc.1).trans (hlower _ hv))⟩
      next =>
        split at h
        next hc =>
          have hv : c.toNat - 'A'.toNat < 6 := hlt hc.2
          rw [← Option.some.inj h]
          exact ⟨by omega, .inl ((eq_ofNat_of_le hc.1).trans (hupper _ hv))⟩
        next => exact absurd h (by simp)
  · rintro ⟨hv, rfl | rfl⟩
    · exact (Option.filter_eq_some_iff.mp (digit?_upperDigit v hv)).1
    · exact (Option.filter_eq_some_iff.mp (digit?_lowerDigit v hv)).1

/-- Reading a digit in some radix finds the value that it stands for. -/
theorem digit?_eq_some_iff {radix v : Nat} {c : Char} :
    digit? radix c = some v ↔ IsDigitOf radix v c := by
  rw [digit?, Option.filter_eq_some_iff, digitValue?_eq_some_iff, decide_eq_true_eq]
  exact ⟨fun h => ⟨h.2, h.1.1, h.1.2⟩, fun h => ⟨⟨h.lt_sixteen, h.spelled⟩, h.lt_radix⟩⟩

theorem toNat_upperDigit : ∀ d < 16, 0x21 ≤ (upperDigit d).toNat ∧ (upperDigit d).toNat < 0x7F := by
  decide

theorem toNat_lowerDigit : ∀ d < 16, 0x21 ≤ (lowerDigit d).toNat ∧ (lowerDigit d).toNat < 0x7F := by
  decide

/-- A digit is neither blank nor a control character. -/
theorem IsDigitOf.visible {radix v : Nat} {c : Char} (h : IsDigitOf radix v c) :
    0x21 ≤ c.toNat ∧ c.toNat < 0x7F := by
  rcases h.spelled with rfl | rfl
  · exact toNat_upperDigit v h.lt_sixteen
  · exact toNat_lowerDigit v h.lt_sixteen

theorem isDigitOf_upperDigit {radix v : Nat} (h : v < radix) (h' : v < 16) :
    IsDigitOf radix v (upperDigit v) :=
  ⟨h, h', .inl rfl⟩

/-! ## Rows of digits -/

/-- The rows of digits that write a number. A zero may stand in front like any other digit. -/
inductive WritesNat (radix : Nat) : Nat → Text → Prop where
  | digit {v : Nat} {c : Char} (hc : IsDigitOf radix v c) : WritesNat radix v [c]
  | concat {n v : Nat} {ds : Text} {c : Char} (h : WritesNat radix n ds)
      (hc : IsDigitOf radix v c) : WritesNat radix (n * radix + v) (ds ++ [c])

variable {radix n : Nat} {ds : Text}

theorem WritesNat.ne_nil (h : WritesNat radix n ds) : ds ≠ [] := by
  induction h <;> simp

theorem WritesNat.isDigitOf_of_mem (h : WritesNat radix n ds) :
    ∀ c ∈ ds, ∃ v, IsDigitOf radix v c := by
  induction h with
  | digit hc => exact List.forall_mem_singleton.mpr ⟨_, hc⟩
  | concat _ hc ih => exact List.forall_mem_append.mpr ⟨ih, List.forall_mem_singleton.mpr ⟨_, hc⟩⟩

/-- The digits of a number make one word. -/
theorem WritesNat.isWord (h : WritesNat radix n ds) : IsWord ds :=
  ⟨h.ne_nil, fun c hc => (h.isDigitOf_of_mem c hc).elim fun _ hv => hv.visible⟩

/-- The last digit is read onto the number of the digits before it. -/
theorem natFrom?_concat (c : Char) : ∀ (ds : Text) (n : Nat), natFrom? radix n (ds ++ [c]) =
    (natFrom? radix n ds).bind fun m => (digit? radix c).map (m * radix + ·)
  | [], n => by
    rw [List.nil_append, natFrom?, natFrom?, Option.bind_some]
    rcases digit? radix c with _ | d <;> simp [natFrom?]
  | d :: ds, n => by
    rw [List.cons_append, natFrom?, natFrom?]
    rcases digit? radix d with _ | v
    · simp
    · exact natFrom?_concat c ds (n * radix + v)

/-- Digits are read as the number that they write, leading zeros included. -/
theorem natFrom?_eq_some_iff (hne : ds ≠ []) :
    natFrom? radix 0 ds = some n ↔ WritesNat radix n ds := by
  refine ⟨fun h => ?_, fun h => ?_⟩
  · -- digits are added at the end, so the row is taken apart from there
    induction ds using List.reverseRecOn generalizing n with
    | nil => exact absurd rfl hne
    | append_singleton ds c ih =>
      rw [natFrom?_concat] at h
      obtain ⟨m, hm, hc⟩ := Option.bind_eq_some_iff.mp h
      obtain ⟨v, hv, rfl⟩ := Option.map_eq_some_iff.mp hc
      rw [digit?_eq_some_iff] at hv
      rcases eq_or_ne ds [] with rfl | hds
      · obtain rfl : 0 = m := Option.some.inj hm
        simpa using WritesNat.digit hv
      · exact .concat (ih hds hm) hv
  · induction h with
    | digit hc => simp [natFrom?, digit?_eq_some_iff.mpr hc]
    | concat h hc ih => simp [natFrom?_concat, ih h.ne_nil, digit?_eq_some_iff.mpr hc]

/-- A text is read as a number exactly if it writes the number. -/
theorem nat?_eq_some_iff : nat? radix ds = some n ↔ WritesNat radix n ds := by
  rcases ds with _ | ⟨c, cs⟩
  · exact ⟨fun h => absurd h (by simp [nat?]), fun h => absurd rfl h.ne_nil⟩
  · exact natFrom?_eq_some_iff (List.cons_ne_nil c cs)

instance : Decidable (WritesNat radix n ds) := decidable_of_iff _ nat?_eq_some_iff

/-- Digits do not start with a sign. -/
theorem WritesNat.dropPlus_eq (h : WritesNat radix n ds) : dropPlus ds = ds := by
  obtain ⟨c, cs, rfl⟩ := List.exists_cons_of_ne_nil h.ne_nil
  unfold dropPlus
  split
  next heq =>
    obtain ⟨rfl, rfl⟩ := List.cons.inj heq
    obtain ⟨v, hv⟩ := h.isDigitOf_of_mem '+' List.mem_cons_self
    rw [← digit?_eq_some_iff] at hv
    exact absurd hv (by simp [digit?, digitValue?])
  next => rfl

/-- A byte is read from its digits behind an optional sign. -/
theorem byte?_eq_some {t : Text} {b : UInt8} (h : WritesNat radix b.toNat (dropPlus t)) :
    byte? radix t = some b := by
  have hlt : b.toNat < 256 := b.toNat_lt
  simp only [byte?, nat?_eq_some_iff.mpr h, if_pos hlt, UInt8.ofNat_toNat]

theorem byte?_of_writesNat {b : UInt8} (h : WritesNat radix b.toNat ds) :
    byte? radix ds = some b :=
  byte?_eq_some (h.dropPlus_eq.symm ▸ h)

theorem byte?_plus {b : UInt8} (h : WritesNat radix b.toNat ds) :
    byte? radix ('+' :: ds) = some b :=
  byte?_eq_some h

theorem writesNat_decimal (n : Nat) : WritesNat 10 n (decimal n) :=
  (natFrom?_eq_some_iff (isWord_decimal n).ne_nil).mp (natFrom?_decimal n)

theorem div_lt_sixteen (b : UInt8) : b.toNat / 16 < 16 := by
  have := b.toNat_lt
  omega

/-- The two digits of a byte write its number in radix 16. -/
theorem writesNat_hexByte (b : UInt8) : WritesNat 16 b.toNat (hexByte upperDigit b) := by
  have hhigh := div_lt_sixteen b
  have hlow : b.toNat % 16 < 16 := Nat.mod_lt _ (by decide)
  have hdigits := (WritesNat.digit (isDigitOf_upperDigit hhigh hhigh)).concat
    (isDigitOf_upperDigit hlow hlow)
  rwa [Nat.div_add_mod'] at hdigits

theorem isWord_hexByte (b : UInt8) : IsWord (hexByte upperDigit b) := (writesNat_hexByte b).isWord

theorem byte?_hexByte (b : UInt8) : byte? 16 (hexByte upperDigit b) = some b :=
  byte?_of_writesNat (writesNat_hexByte b)

end TwinRom.Text
