import TwinRom.Text.Numeral

/-!
# Spelling

What the writers put together and the readers take apart again: lines with line ends behind them
(`Text.lines_append_newline`), words with blanks between them (`Text.words_append_cons`) and decimal
numbers (`Text.natFrom?_decimal`).

A word is made of visible ASCII characters (`Text.IsWord`), and a line holds no control characters
(`Text.IsLine`), so that neither can be mistaken for two.
-/

namespace TwinRom.Text

/-! ## Words and lines -/

/-- A text that stands for itself between blanks. -/
structure IsWord (w : Text) : Prop where
  ne_nil : w ≠ []
  visible : ∀ c ∈ w, 0x21 ≤ c.toNat ∧ c.toNat < 0x7F

/-- A text that stands for itself between line ends. -/
def IsLine (t : Text) : Prop := ∀ c ∈ t, 0x20 ≤ c.toNat

instance (t : Text) : Decidable (IsLine t) :=
  -- over the text, not over all characters
  decidable_of_iff (t.all fun c => 0x20 ≤ c.toNat) (by simp [IsLine])

theorem IsWord.isLine {w : Text} (h : IsWord w) : IsLine w :=
  fun c hc => Nat.le_of_succ_le (h.visible c hc).1

theorem IsLine.nil : IsLine [] := fun _ hc => by cases hc

theorem IsLine.append {s t : Text} (hs : IsLine s) (ht : IsLine t) : IsLine (s ++ t) :=
  List.forall_mem_append.mpr ⟨hs, ht⟩

theorem IsLine.blanks (n : Nat) : IsLine (List.replicate n ' ') := by
  intro c hc
  rw [List.eq_of_mem_replicate hc]
  decide

/-! ## Separators -/

/-- Texts joined by a separator: the first, and each other one with the separator before it. -/
theorem intercalate_cons (s : Char) (t : Text) (ts : List Text) :
    [s].intercalate (t :: ts) = t ++ ts.flatMap (s :: ·) := by
  induction ts generalizing t with
  | nil => rw [List.intercalate_singleton, List.flatMap_nil, List.append_nil]
  | cons u ts ih =>
    rw [List.intercalate_cons_cons, ih u, List.flatMap_cons, List.append_assoc]
    rfl

/-- What holds of a separator and of the characters of some texts holds when they are joined. -/
theorem forall_mem_intercalate {P : Char → Prop} {s : Char} (hs : P s) {ts : List Text}
    (h : ∀ t ∈ ts, ∀ c ∈ t, P c) : ∀ c ∈ [s].intercalate ts, P c := by
  intro c hc
  cases ts with
  | nil => cases hc
  | cons t ts =>
    rw [intercalate_cons, List.mem_append] at hc
    rcases hc with hc | hc
    · exact h t List.mem_cons_self c hc
    · obtain ⟨u, hu, hc⟩ := List.mem_flatMap.mp hc
      rcases List.mem_cons.mp hc with rfl | hc
      · exact hs
      · exact h u (List.mem_cons_of_mem t hu) c hc

theorem mem_intercalate_of_mem {t : Text} {ts : List Text} (ht : t ∈ ts) {c s : Char} (hc : c ∈ t) :
    c ∈ [s].intercalate ts := by
  rcases ts with _ | ⟨u, ts⟩
  · exact absurd ht List.not_mem_nil
  · rw [intercalate_cons]
    rcases List.mem_cons.mp ht with rfl | ht
    · exact List.mem_append_left _ hc
    · exact List.mem_append_right _ (List.mem_flatMap.mpr ⟨t, ht, List.mem_cons_of_mem s hc⟩)

/-! ## Line ends -/

/-- A character that ends no line is the first of the first line. -/
theorem lines_cons {c : Char} (hn : c ≠ '\n') (hr : c ≠ '\r') (t : Text) :
    lines (c :: t) = consHead c (lines t) := by
  rw [lines]
  · exact hn
  · intro _ h
    exact absurd h hr

/-- A line end behind a line ends it. -/
theorem lines_append_newline : ∀ {s : Text}, IsLine s → ∀ t : Text,
    lines (s ++ '\n' :: t) = s :: lines t
  | [], _, t => lines_newline t
  | c :: s, h, t => by
    have hc : 0x20 ≤ c.toNat := h c List.mem_cons_self
    have hn : c ≠ '\n' := by rintro rfl; exact absurd hc (by decide)
    have hr : c ≠ '\r' := by rintro rfl; exact absurd hc (by decide)
    rw [List.cons_append, lines_cons hn hr,
      lines_append_newline (fun d hd => h d (List.mem_cons_of_mem c hd))]
    rfl

/-- Texts that are written one to a line are the lines of what is written. -/
theorem lines_flatMap {α : Type} {f : α → Text} : ∀ {xs : List α}, (∀ x ∈ xs, IsLine (f x)) →
    lines (xs.flatMap fun x => f x ++ ['\n']) = xs.map f
  | [], _ => lines_nil
  | x :: xs, h => by
    rw [List.flatMap_cons, List.append_assoc, List.singleton_append,
      lines_append_newline (h x List.mem_cons_self),
      lines_flatMap fun y hy => h y (List.mem_cons_of_mem x hy), List.map_cons]

/-! ## Blanks -/

theorem isBlank_eq_false {c : Char} (h : 0x21 ≤ c.toNat) (h' : c.toNat < 0x7F) :
    isBlank c = false := by
  simp only [isBlank, Bool.or_eq_false_iff, Bool.and_eq_false_iff, decide_eq_false_iff_not,
    beq_eq_false_iff_ne]
  omega

theorem IsWord.isBlank {w : Text} (h : IsWord w) : ∀ c ∈ w, isBlank c = false :=
  fun c hc => isBlank_eq_false (h.visible c hc).1 (h.visible c hc).2

@[simp] theorem words_nil : words [] = [] := rfl

/-- A blank separates words. -/
theorem words_append_cons {b : Char} (hb : isBlank b = true) (s t : Text) :
    words (s ++ b :: t) = words s ++ words t := by
  simp only [words, List.splitOnP_append_cons s t hb, List.filter_append]

theorem words_cons {b : Char} (hb : isBlank b = true) (t : Text) : words (b :: t) = words t :=
  words_append_cons hb [] t

theorem IsWord.words {w : Text} (h : IsWord w) : words w = [w] := by
  have hne : w.isEmpty = false := List.isEmpty_eq_false_iff.mpr h.ne_nil
  simp [Text.words, List.splitOnP_eq_singleton h.isBlank, hne]

theorem words_trimStart (t : Text) : words (trimStart t) = words t := by
  induction t with
  | nil => rfl
  | cons c t ih =>
    unfold trimStart at ih ⊢
    cases hc : isBlank c with
    | true => rw [List.dropWhile_cons_of_pos hc, ih, words_cons hc]
    | false => rw [List.dropWhile_cons_of_neg (by simp [hc])]

theorem words_trimEnd (t : Text) : words (trimEnd t) = words t := by
  obtain ⟨r, rfl⟩ : ∃ r, t = r.reverse := ⟨t.reverse, t.reverse_reverse.symm⟩
  rw [trimEnd, List.reverse_reverse]
  induction r with
  | nil => rfl
  | cons c r ih =>
    cases hc : isBlank c with
    | true =>
      rw [List.dropWhile_cons_of_pos hc, ih, List.reverse_cons, words_append_cons hc, words_nil,
        List.append_nil]
    | false => rw [List.dropWhile_cons_of_neg (by simp [hc])]

/-- Trimming removes no word. -/
@[simp] theorem words_trim (t : Text) : words (trim t) = words t := by
  rw [trim, words_trimEnd, words_trimStart]

/-- A text with a word in it is not trimmed to nothing. -/
theorem trim_ne_nil {t : Text} (h : words t ≠ []) : trim t ≠ [] := by
  intro htrim
  rw [← words_trim, htrim] at h
  exact h rfl

theorem IsWord.trim {w : Text} (h : IsWord w) : trim w = w := by
  have hdrop : ∀ {t : Text}, (∀ c ∈ t, Text.isBlank c = false) → t.dropWhile Text.isBlank = t := by
    intro t ht
    cases t with
    | nil => rfl
    | cons c t =>
      rw [List.dropWhile_cons_of_neg (by simp [ht c List.mem_cons_self])]
  have hrev : ∀ c ∈ w.reverse, Text.isBlank c = false :=
    fun c hc => h.isBlank c (List.mem_reverse.mp hc)
  rw [Text.trim, trimStart, hdrop h.isBlank, trimEnd, hdrop hrev, List.reverse_reverse]

/-! ## Decimal -/

theorem toNat_of_isDigit {c : Char} (h : c.isDigit = true) : 48 ≤ c.toNat ∧ c.toNat ≤ 57 := by
  simp only [Char.isDigit, Bool.and_eq_true, decide_eq_true_eq] at h
  exact ⟨UInt32.le_iff_toNat_le.mp h.1, UInt32.le_iff_toNat_le.mp h.2⟩

/-- The value of a decimal digit is its distance from `0`. -/
theorem digit?_of_isDigit {c : Char} (h : c.isDigit = true) :
    digit? 10 c = some (c.toNat - '0'.toNat) := by
  obtain ⟨hlow, hhigh⟩ := toNat_of_isDigit h
  have hrange : '0' ≤ c ∧ c ≤ '9' :=
    ⟨UInt32.le_iff_toNat_le.mpr hlow, UInt32.le_iff_toNat_le.mpr hhigh⟩
  have hlt : c.toNat - '0'.toNat < 10 := by
    show c.toNat - 48 < 10
    omega
  rw [digit?, digitValue?, if_pos hrange, Option.filter_some, if_pos (decide_eq_true hlt)]

theorem isDigit_of_mem_decimal {n : Nat} {c : Char} (h : c ∈ decimal n) : c.isDigit = true :=
  Nat.isDigit_of_mem_toDigits (by decide) (by decide) h

/-- A number in decimal is a word. -/
theorem isWord_decimal (n : Nat) : IsWord (decimal n) := by
  refine ⟨Nat.toDigits_ne_nil, fun c hc => ?_⟩
  have hdigit := toNat_of_isDigit (isDigit_of_mem_decimal hc)
  omega

/-- Decimal digits are read from left to right. -/
theorem natFrom?_of_isDigit : ∀ {cs : Text}, (∀ c ∈ cs, c.isDigit = true) → ∀ n,
    natFrom? 10 n cs = some (Nat.ofDigitChars 10 cs n)
  | [], _, n => rfl
  | c :: cs, h, n => by
    have ih := natFrom?_of_isDigit (fun d hd => h d (List.mem_cons_of_mem c hd))
      (n * 10 + (c.toNat - '0'.toNat))
    rw [natFrom?, digit?_of_isDigit (h c List.mem_cons_self), Nat.ofDigitChars_cons,
      Nat.mul_comm 10 n]
    exact ih

/-- A number that is written in decimal is read back. -/
@[simp] theorem natFrom?_decimal (n : Nat) : natFrom? 10 0 (decimal n) = some n := by
  rw [natFrom?_of_isDigit fun c => isDigit_of_mem_decimal]
  exact congrArg some Nat.ofDigitChars_ten_toDigits

end TwinRom.Text
