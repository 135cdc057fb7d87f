import Mathlib.Algebra.Ring.Parity
import Mathlib.Data.List.DropRight
import TwinRom.Proofs.Layout

/-!
# Dangling escapes

A line is refused for one reason: it ends in a backslash that has nothing to escape. Reading finds
this out from left to right, pairing each backslash with the character behind it. It can also be
seen without pairing anything, from the runs of backslashes in the text (`Line.trailing`). The last
backslash is open if the run at the end is odd, and a semicolon starts a comment if the run before
it is even; a text dangles (`Line.Dangles`) if the first is so and the second is nowhere so.

The two agree because a text in which every backslash has found its character can be taken off the
front without changing the parity of any run behind it (`Line.even_trailing_append`). So refusal is
dangling (`tokens_eq_error_iff_dangles`).
-/

namespace TwinRom

namespace Line

/-! ## Runs of backslashes -/

/-- The length of the run of backslashes at the end of a text. -/
def trailing (t : Text) : Nat := (t.rtakeWhile (· == '\\')).length

@[simp] theorem trailing_nil : trailing [] = 0 := rfl

/-- A backslash makes the run at the end longer and any other character ends it. -/
theorem trailing_concat (t : Text) (c : Char) :
    trailing (t ++ [c]) = if c = '\\' then trailing t + 1 else 0 := by
  by_cases hc : c = '\\'
  · rw [trailing, List.rtakeWhile_concat_pos _ _ _ (by simpa using hc), if_pos hc, trailing]
    simp
  · rw [trailing, List.rtakeWhile_concat_neg _ _ _ (by simpa using hc), if_neg hc]
    rfl

theorem trailing_singleton_of_ne {c : Char} (hc : c ≠ '\\') : trailing [c] = 0 := by
  have h := trailing_concat [] c
  rwa [if_neg hc] at h

/-- An even run in front of a text does not change the parity of the run at its end. -/
theorem even_trailing_append {s : Text} (hs : Even (trailing s)) (t : Text) :
    Even (trailing (s ++ t)) ↔ Even (trailing t) := by
  induction t using List.reverseRecOn with
  | nil => simpa using hs
  | append_singleton t c ih =>
    rw [← List.append_assoc, trailing_concat, trailing_concat]
    split
    · rw [Nat.even_add_one, Nat.even_add_one, ih]
    · rfl

/-! ## Comments -/

/-- No semicolon of the text starts a comment, because there is an odd run of backslashes before
every one. -/
def NoComment (text : Text) : Prop :=
  ∀ pre post, text = pre ++ ';' :: post → ¬Even (trailing pre)

theorem noComment_of_not_mem {text : Text} (h : ';' ∉ text) : NoComment text := by
  rintro pre post rfl
  exact absurd (by simp) h

theorem not_noComment_semicolon (cs : Text) : ¬NoComment (';' :: cs) :=
  fun h => h [] cs rfl (by simp)

/-- A semicolon that is escaped starts no comment. -/
theorem noComment_escape (c : Char) : NoComment ['\\', c] := by
  intro pre post h
  -- the semicolon can only be the second character
  match pre with
  | [] => cases h
  | [d] =>
    obtain ⟨rfl, -⟩ := List.cons.inj h
    decide
  | d :: e :: pre => simp at h

/-- Behind an even run, comments are found as in a text of their own. -/
theorem noComment_append {s : Text} (hs : Even (trailing s)) (t : Text) :
    NoComment (s ++ t) ↔ NoComment s ∧ NoComment t := by
  constructor
  · refine fun h => ⟨?_, ?_⟩
    · rintro pre post rfl
      exact h pre (post ++ t) (by simp)
    · rintro pre post rfl heven
      exact h (s ++ pre) post (by simp) ((even_trailing_append hs pre).mpr heven)
  · rintro ⟨hfront, hback⟩ pre post h
    rcases List.append_eq_append_iff.mp h with ⟨mid, rfl, rfl⟩ | ⟨mid, rfl, hmid⟩
    · rw [even_trailing_append hs]
      exact hback mid post rfl
    · cases mid with
      | nil =>
        -- the semicolon is the first character behind `s`
        rw [List.append_nil] at hs
        exact fun _ => hback [] post hmid.symm (by simp)
      | cons d mid =>
        obtain ⟨rfl, -⟩ := List.cons.inj hmid
        exact hfront pre mid rfl

/-! ## Refusal -/

/-- A text that ends inside an escape: its last run of backslashes is odd, and no comment starts
before. -/
structure Dangles (text : Text) : Prop where
  /-- The last backslash is not itself escaped. -/
  odd_trailing : Odd (trailing text)
  /-- The last backslash is not part of a comment. -/
  noComment : NoComment text

/-- A front part with complete escapes and no comment does not matter. -/
theorem dangles_append {s : Text} (hs : Even (trailing s)) (hc : NoComment s) (t : Text) :
    Dangles (s ++ t) ↔ Dangles t := by
  have hodd : Odd (trailing (s ++ t)) ↔ Odd (trailing t) := by
    rw [← Nat.not_even_iff_odd, ← Nat.not_even_iff_odd, even_trailing_append hs]
  constructor
  · rintro ⟨hend, hno⟩
    exact ⟨hodd.mp hend, ((noComment_append hs t).mp hno).2⟩
  · rintro ⟨hend, hno⟩
    exact ⟨hodd.mpr hend, (noComment_append hs t).mpr ⟨hc, hno⟩⟩

/-- An ordinary character in front does not matter. -/
theorem dangles_cons {c : Char} (hsemi : c ≠ ';') (hback : c ≠ '\\') (t : Text) :
    Dangles (c :: t) ↔ Dangles t := by
  have heven : Even (trailing [c]) := by
    rw [trailing_singleton_of_ne hback]
    exact Even.zero
  exact dangles_append heven (noComment_of_not_mem (by simpa using hsemi.symm)) t

/-- An escape in front does not matter, whatever is escaped. -/
theorem dangles_escape (c : Char) (t : Text) : Dangles ('\\' :: c :: t) ↔ Dangles t := by
  have heven : Even (trailing ['\\', c]) := by
    have h := trailing_concat ['\\'] c
    rw [List.singleton_append] at h
    rw [h]
    split <;> decide
  exact dangles_append heven (noComment_escape c) t

/-- The scanner gives up on the texts that dangle and on no others. -/
theorem scan_eq_none_iff (text : Text) : scan text = none ↔ Dangles text := by
  fun_induction scan text with
  | case1 => exact iff_of_false (by simp) fun h => absurd h.odd_trailing (by decide)
  | case2 cs => exact iff_of_false (by simp) fun h => not_noComment_semicolon cs h.noComment
  | case3 => exact iff_of_true rfl ⟨by decide, noComment_of_not_mem (by decide)⟩
  | case4 c cs ih => rw [Option.map_eq_none_iff, ih, dangles_escape]
  | case5 c cs hsemi hback hback' hc ih =>
    rw [Option.map_eq_none_iff, ih, dangles_cons hsemi (ne_backslash hback hback')]
  | case6 c cs hsemi hback hback' hc ih =>
    rw [Option.map_eq_none_iff, ih, dangles_cons hsemi (ne_backslash hback hback')]

end Line

/-- A line is refused exactly if it dangles, and the fault is then one of its form. Every other line
has tokens. -/
theorem tokens_eq_error_iff_dangles (text : Text) :
    ((∃ expected, Line.tokens text = .error (.malformed expected)) ↔ Line.Dangles text) ∧
      ((∃ tokens, Line.tokens text = .ok tokens) ↔ ¬Line.Dangles text) := by
  rw [← Line.scan_eq_none_iff, Line.tokens]
  cases Line.scan text with
  | none => simp
  | some r => simp

example : Line.tokens "sub\\;\\\\\\".toList = .error (.malformed "expected EOI or token") := rfl

end TwinRom
