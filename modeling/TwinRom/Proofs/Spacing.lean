import Mathlib.Data.List.TakeWhile
import Mathlib.Logic.Basic
import TwinRom.Proofs.Spelling

/-!
# Texts in any spacing

Items may be written as words with any blanks between and around them (`Text.Spaced`); a reader of
words reads them one by one (`Text.Spaced.map_words`). Of some texts the blank ones may not count,
so that two filled texts are the first two wherever they stand (`Text.FirstTwo.filter_isFilled`).

A reader that does not mind a carriage return at the end of a line may take the line feeds alone for
line ends: it finds the same, but for an empty line at the end of the text (`Text.map_lines`).
-/

namespace TwinRom.Text

/-! ## Blanks at the end -/

/-- A blank at the end does not survive trimming. -/
theorem trim_concat {c : Char} (hc : isBlank c = true) (t : Text) : trim (t ++ [c]) = trim t := by
  have hend : ∀ s : Text, trimEnd (s ++ [c]) = trimEnd s := by
    intro s
    rw [trimEnd, trimEnd, List.reverse_concat, List.dropWhile_cons_of_pos hc]
  rw [trim, trim, trimStart, trimStart, List.dropWhile_append]
  split
  next h =>
    rw [List.isEmpty_iff.mp h, List.dropWhile_cons_of_pos hc]
    rfl
  next => exact hend _

theorem words_concat {c : Char} (hc : isBlank c = true) (t : Text) :
    words (t ++ [c]) = words t := by
  rw [words_append_cons hc, words_nil, List.append_nil]

/-! ## Blank and filled texts -/

/-- A text without anything but blanks. -/
def IsGap (t : Text) : Prop := ∀ c ∈ t, isBlank c = true

instance (t : Text) : Decidable (IsGap t) :=
  -- over the text, not over all characters
  decidable_of_iff (t.all isBlank = true) List.all_eq_true

theorem isGap_blanks (n : Nat) : IsGap (List.replicate n ' ') := by
  intro c hc
  rw [List.eq_of_mem_replicate hc]
  rfl

/-- Whether a text holds more than blanks. -/
def isFilled (t : Text) : Bool := !(trim t).isEmpty

theorem IsGap.trim_eq {t : Text} (h : IsGap t) : trim t = [] := by
  have hdrop : t.dropWhile isBlank = [] := List.dropWhile_eq_nil_iff.mpr h
  rw [trim, trimStart, hdrop]
  rfl

theorem IsGap.isFilled_eq {t : Text} (h : IsGap t) : isFilled t = false := by
  rw [isFilled, h.trim_eq]
  rfl

/-- A text with a word in it is filled. -/
theorem isFilled_of_words {t : Text} (h : words t ≠ []) : isFilled t = true := by
  simpa [isFilled] using trim_ne_nil h

/-- Two texts that are the first of some, apart from blank ones. -/
inductive FirstTwo (a b : Text) : List Text → Prop where
  | intro (front middle back : List Text) (hfront : ∀ t ∈ front, IsGap t)
      (hmiddle : ∀ t ∈ middle, IsGap t) : FirstTwo a b (front ++ a :: (middle ++ b :: back))

theorem filter_isFilled_of_gaps {ts : List Text} (h : ∀ t ∈ ts, IsGap t) :
    ts.filter isFilled = [] :=
  List.filter_eq_nil_iff.mpr fun t ht => by simp [(h t ht).isFilled_eq]

/-- If the first two texts between gaps are filled, then they are the first two that are. -/
theorem FirstTwo.filter_isFilled {a b : Text} {ts : List Text} (h : FirstTwo a b ts)
    (ha : isFilled a = true) (hb : isFilled b = true) :
    ∃ back, ts.filter isFilled = a :: b :: back := by
  obtain ⟨front, middle, back, hfront, hmiddle⟩ := h
  refine ⟨back.filter isFilled, ?_⟩
  rw [List.filter_append, filter_isFilled_of_gaps hfront, List.nil_append,
    List.filter_cons_of_pos ha, List.filter_append, filter_isFilled_of_gaps hmiddle,
    List.nil_append, List.filter_cons_of_pos hb]

theorem FirstTwo.mem {a b : Text} {ts : List Text} (h : FirstTwo a b ts) : a ∈ ts ∧ b ∈ ts := by
  obtain ⟨front, middle, back, -, -⟩ := h
  simp

/-! ## Words -/

section Spaced

variable {α : Type} {P : α → Text → Prop}

/-- Texts of some items with blanks between and around them, where `P` says how an item may be
written. -/
inductive Spaced (P : α → Text → Prop) : List α → Text → Prop where
  | nil : Spaced P [] []
  | blank {c : Char} {xs : List α} {t : Text} (hc : isBlank c = true) (h : Spaced P xs t) :
      Spaced P xs (c :: t)
  | last {x : α} {w : Text} (hw : P x w) : Spaced P [x] w
  | item {x : α} {w : Text} {c : Char} {xs : List α} {t : Text} (hw : P x w)
      (hc : isBlank c = true) (h : Spaced P xs t) : Spaced P (x :: xs) (w ++ c :: t)

/-- The words of such a text are the items, one by one. -/
theorem Spaced.map_words {f : Text → Option α} (hword : ∀ x w, P x w → IsWord w)
    (hf : ∀ x w, P x w → f w = some x) {xs : List α} {t : Text} (h : Spaced P xs t) :
    (words t).map f = xs.map some := by
  induction h with
  | nil => simp
  | blank hc _ ih => rw [words_cons hc, ih]
  | last hw => simp [(hword _ _ hw).words, hf _ _ hw]
  | item hw hc _ ih =>
    rw [words_append_cons hc, (hword _ _ hw).words, List.map_append, ih]
    simp [hf _ _ hw]

/-- Two such texts with a blank between them. -/
theorem Spaced.append {c : Char} (hc : isBlank c = true) {xs ys : List α} {s t : Text}
    (hs : Spaced P xs s) (ht : Spaced P ys t) : Spaced P (xs ++ ys) (s ++ c :: t) := by
  induction hs with
  | nil => exact .blank hc ht
  | blank hd _ ih => exact .blank hd ih
  | last hw => exact .item hw hc ht
  | item hw hd _ ih =>
    rw [List.append_assoc]
    exact .item hw hd ih

theorem Spaced.gap_append {xs : List α} {t : Text} (h : Spaced P xs t) :
    ∀ {gap : Text}, IsGap gap → Spaced P xs (gap ++ t)
  | [], _ => h
  | _ :: _, hgap =>
    let ⟨hc, hgap⟩ := List.forall_mem_cons.mp hgap
    .blank hc (h.gap_append hgap)

/-- Blanks may stand behind the last item. -/
theorem Spaced.append_gap {xs : List α} {t gap : Text} (h : Spaced P xs t) (hgap : IsGap gap) :
    Spaced P xs (t ++ gap) := by
  rcases gap with _ | ⟨c, gap⟩
  · rwa [List.append_nil]
  · obtain ⟨hc, hgap⟩ := List.forall_mem_cons.mp hgap
    have hrest : Spaced P [] (gap ++ []) := Spaced.nil.gap_append hgap
    simpa using h.append hc hrest

/-- Items with one blank between each two. -/
theorem Spaced.intercalate {f : α → Text} (h : ∀ x, Spaced P [x] (f x)) :
    ∀ xs : List α, Spaced P xs ([' '].intercalate (xs.map f))
  | [] => .nil
  | [x] => by simpa using h x
  | x :: y :: xs => by
    have ih := Spaced.intercalate h (y :: xs)
    rw [List.map_cons, List.map_cons, List.intercalate_cons_cons, List.append_assoc]
    exact (h x).append rfl ih

/-- A text of at least one item has the characters of an item. -/
theorem Spaced.exists_item {xs : List α} {t : Text} (h : Spaced P xs t) (hne : xs ≠ []) :
    ∃ x w, P x w ∧ w ⊆ t := by
  induction h with
  | nil => exact absurd rfl hne
  | blank _ _ ih =>
    obtain ⟨x, w, hw, hsub⟩ := ih hne
    exact ⟨x, w, hw, List.subset_cons_of_subset _ hsub⟩
  | @last x w hw => exact ⟨x, w, hw, List.Subset.refl w⟩
  | @item x w _ _ _ hw _ _ _ => exact ⟨x, w, hw, List.subset_append_left w _⟩

/-- A text with an item in it is not blank. -/
theorem Spaced.isFilled_eq {f : Text → Option α} (hword : ∀ x w, P x w → IsWord w)
    (hf : ∀ x w, P x w → f w = some x) {xs : List α} {t : Text} (h : Spaced P xs t)
    (hne : xs ≠ []) : isFilled t = true := by
  refine isFilled_of_words fun hnil => hne ?_
  simpa [hnil] using h.map_words hword hf

end Spaced

/-! ## Line ends -/

/-- A line feed ends the text before it, and one carriage return goes with it. -/
theorem lines_append {s : Text} (hs : '\n' ∉ s) (t : Text) :
    ∃ s', lines (s ++ '\n' :: t) = s' :: lines t ∧ (s = s' ∨ s = s' ++ ['\r']) := by
  induction s with
  | nil => exact ⟨[], lines_newline t, .inl rfl⟩
  | cons c s ih =>
    obtain ⟨hc, hs⟩ := List.ne_and_not_mem_of_not_mem_cons hs
    rcases s with _ | ⟨d, s⟩
    · by_cases hr : c = '\r'
      · exact ⟨[], by rw [hr]; exact lines_return_newline t, .inr (by rw [hr]; rfl)⟩
      · refine ⟨[c], ?_, .inl rfl⟩
        rw [List.singleton_append, lines_cons hc.symm hr, lines_newline]
        rfl
    · obtain ⟨s', hlines, hs'⟩ := ih hs
      refine ⟨c :: s', ?_, hs'.imp (congrArg (c :: ·)) (congrArg (c :: ·))⟩
      have hd : d ≠ '\n' := fun h => hs (h ▸ List.mem_cons_self)
      rw [List.cons_append, lines]
      · rw [hlines]
        rfl
      · exact hc.symm
      · intro _ _ h
        exact hd (List.cons.inj h).1

theorem lines_of_not_mem {s : Text} (hs : '\n' ∉ s) (hne : s ≠ []) : lines s = [s] := by
  induction s with
  | nil => exact absurd rfl hne
  | cons c s ih =>
    obtain ⟨hc, hs⟩ := List.ne_and_not_mem_of_not_mem_cons hs
    rw [lines]
    · rcases eq_or_ne s [] with rfl | hs'
      · rw [lines_nil]
        rfl
      · rw [ih hs hs']
        rfl
    · exact hc.symm
    · intro _ _ h
      exact hs (h ▸ List.mem_cons_self)

/-- Where a carriage return at its end makes no difference to a line, the lines may be taken from
line feed to line feed. There is then one more line if nothing stands behind the last line feed. -/
theorem map_lines {α : Type} {f : Text → α} (hf : ∀ s, f (s ++ ['\r']) = f s) (t : Text) :
    (t.splitOn '\n').map f = (lines t).map f ∨
      (t.splitOn '\n').map f = (lines t).map f ++ [f []] := by
  by_cases hn : '\n' ∈ t
  · obtain ⟨s, rest, ht, hs⟩ := List.eq_append_cons_of_mem hn
    obtain ⟨s', hlines, hs'⟩ := lines_append hs rest
    have hfs : f s = f s' := by
      rcases hs' with rfl | rfl
      · rfl
      · exact hf s'
    rw [ht, List.splitOn_append_cons_self_of_not_mem hs, hlines, List.map_cons, List.map_cons, hfs]
    exact (map_lines hf rest).imp (congrArg (f s' :: ·)) (congrArg (f s' :: ·))
  · rw [List.splitOn_eq_singleton hn]
    rcases eq_or_ne t [] with rfl | hne
    · exact .inr rfl
    · exact .inl (by rw [lines_of_not_mem hn hne])
termination_by t.length
decreasing_by simp only [ht, List.length_append, List.length_cons]; omega

/-- The same holds of the lines that are not blank, and an empty line does not count there. -/
theorem map_filter_lines {α : Type} {f : Text → α} (hf : ∀ s, f (s ++ ['\r']) = f s) (t : Text) :
    ((lines t).filter isFilled).map f = ((t.splitOn '\n').filter isFilled).map f := by
  have hpairs : ∀ ls : List Text, (ls.filter isFilled).map f =
      ((ls.map fun s => (isFilled s, f s)).filter Prod.fst).map Prod.snd := by
    intro ls
    rw [List.filter_map, List.map_map]
    rfl
  have hreturn : ∀ s, (isFilled (s ++ ['\r']), f (s ++ ['\r'])) = (isFilled s, f s) := by
    intro s
    rw [hf, isFilled, isFilled, trim_concat rfl]
  rw [hpairs, hpairs]
  rcases map_lines (f := fun s => (isFilled s, f s)) hreturn t with h | h
  · rw [h]
  · rw [h, List.filter_append]
    simp [isFilled]

end TwinRom.Text
