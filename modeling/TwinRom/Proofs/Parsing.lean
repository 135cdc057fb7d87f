import TwinRom.Proofs.Grammar
import TwinRom.Proofs.Layout

/-!
# Parsing of lines

The grammar of lines takes a text apart rule by rule, and `Line.tokens` takes it apart in one pass.
They find the same tokens and refuse the same texts (`tokens_agree_with_grammar`).

The agreement goes by the parts of a text. Behind a token there are others with gaps before them,
and then the end of the line, which may be a comment or an escape that breaks off (`Trail`). Every
text has such parts (`exists_trail`), also one that is refused. For each part there is a rule of the
grammar that matches just this part, and matching the whole line leaves nothing or the escape that
breaks off (`exists_records`).
-/

namespace TwinRom

namespace Grammar

open Line

variable {input : Text} {m : Mode} {a : Expr} {t u v rest : Text} {ps qs : List Pair}

/-! ## Characters -/

/-- A text that does not start with any of some characters. -/
def Avoids (cs : List Char) (t : Text) : Prop := ∀ c ∈ cs, ∀ u, t ≠ c :: u

theorem Avoids.nil {cs : List Char} : Avoids cs [] := fun _ _ _ h => nomatch h

theorem Avoids.cons {cs : List Char} {c : Char} (hc : c ∉ cs) : Avoids cs (c :: t) := by
  intro d hd u h
  exact hc ((List.cons.inj h).1 ▸ hd)

theorem Avoids.mono {cs ds : List Char} (h : Avoids ds t) (hsub : cs ⊆ ds) : Avoids cs t :=
  fun c hc => h c (hsub hc)

theorem char_none {c : Char} (h : Avoids [c] t) : Matches input m (.char c) t none := by
  cases t with
  | nil => exact .char_nil
  | cons d t => exact .char_ne fun hd => h c (List.mem_singleton.mpr rfl) t (hd ▸ rfl)

theorem matches_oneOf : ∀ {c : Char} {cs : List Char} {d : Char}, d ∈ c :: cs →
    Matches input m (.oneOf c cs) (d :: t) (some ([], t))
  | c, [], d, h => by
    obtain rfl := List.mem_singleton.mp h
    exact .char
  | c, c' :: cs, d, h => by
    rcases eq_or_ne d c with rfl | hne
    · exact .orElse_left .char
    · exact .orElse_right (.char_ne hne) (matches_oneOf (List.mem_of_ne_of_mem hne h))

theorem oneOf_none : ∀ {c : Char} {cs : List Char}, Avoids (c :: cs) t →
    Matches input m (.oneOf c cs) t none
  | _, [], h => char_none h
  | _, _ :: _, h =>
    .orElse_right (char_none (h.mono (by simp))) (oneOf_none (h.mono (List.subset_cons_self _ _)))

/-! ## Gaps -/

/-- The characters between tokens. -/
def separators : List Char := [' ', '\t', ',']

/-- The characters at which a gap starts. -/
def marks : List Char := [' ', '\t', ',', ';']

theorem mem_separators_iff {c : Char} : c ∈ separators ↔ isSeparator c = true := by
  simp [separators, isSeparator, or_assoc]

theorem mem_marks_iff {c : Char} : c ∈ marks ↔ isSeparator c = true ∨ c = ';' := by
  simp [marks, isSeparator, or_assoc]

theorem matches_whitespace {c : Char} (hc : isSeparator c = true) :
    Matches input m (.rule .whitespace) (c :: t) (some ([], t)) :=
  .rule (r := .whitespace) (matches_oneOf (mem_separators_iff.mpr hc))

theorem whitespace_none (h : Avoids separators t) :
    Matches input m (.rule .whitespace) t none :=
  .rule_none (r := .whitespace) (oneOf_none h)

/-- Separators are matched up to the first character that is none. -/
theorem repeated_whitespace {gap : Text} (hgap : IsGap gap) (h : Avoids separators rest) :
    Matches input m (.repeated (.rule .whitespace)) (gap ++ rest) (some ([], rest)) := by
  induction gap with
  | nil => exact .repeated_stop (whitespace_none h)
  | cons c gap ih =>
    obtain ⟨hc, hgap⟩ := List.forall_mem_cons.mp hgap
    exact .repeated_next (matches_whitespace hc) (ih hgap)

/-- Within a rule that is matched character by character, nothing is skipped. -/
theorem skip_atomic (t : Text) : Matches input .atomic .skip t (some ([], t)) :=
  .skip_nothing (by decide)

theorem repeated_any : ∀ t : Text,
    Matches input .atomic (.repeated (.andThen .skip .any)) t (some ([], []))
  | [] => .repeated_stop (.andThen_none_right (skip_atomic []) .any_nil)
  | c :: t => .repeated_next (.andThen (skip_atomic (c :: t)) .any) (repeated_any t)

/-- A comment runs to the end of the input. -/
theorem matches_comment (t : Text) :
    Matches input m (.rule .comment) (';' :: t) (some ([], [])) := by
  have hstar : Matches input .atomic (.star .any) t (some ([], [])) := by
    cases t with
    | nil => exact .opt_none (.andThen_none_left .any_nil)
    | cons c t => exact .opt (.andThen .any (repeated_any t))
  exact .rule (r := .comment) (.andThen .char (.andThen (skip_atomic t) hstar))

theorem comment_none (h : Avoids [';'] t) : Matches input m (.rule .comment) t none :=
  .rule_none (r := .comment) (.andThen_none_left (char_none h))

/-- A gap is skipped up to what is neither a separator nor a comment. -/
theorem skip_gap {gap : Text} (hgap : IsGap gap) (h : Avoids marks rest) :
    Matches input .skipping .skip (gap ++ rest) (some ([], rest)) := by
  have hspaces : Matches input .atomic (.repeated (.rule .whitespace)) (gap ++ rest)
      (some ([], rest)) := repeated_whitespace hgap (h.mono (by decide))
  have hcomment : Matches input .atomic (.rule .comment) rest none :=
    comment_none (h.mono (by decide))
  exact .skip (.andThen hspaces (.repeated_stop (.andThen_none_left hcomment)))

/-- A gap with a comment is skipped to the end of the input. -/
theorem skip_comment {gap : Text} (hgap : IsGap gap) (t : Text) :
    Matches input .skipping .skip (gap ++ ';' :: t) (some ([], [])) := by
  have hspaces : Matches input .atomic (.repeated (.rule .whitespace)) (gap ++ ';' :: t)
      (some ([], ';' :: t)) := repeated_whitespace hgap (.cons (by decide))
  have hrest : Matches input .atomic (.repeated (.rule .whitespace)) [] (some ([], [])) :=
    .repeated_stop (whitespace_none .nil)
  exact .skip (.andThen hspaces (.repeated_next (.andThen (matches_comment t) hrest)
    (.repeated_stop (.andThen_none_left (comment_none .nil)))))

/-! ## Tokens -/

/-- A text at whose start no token can begin or go on. -/
inductive Stops : Text → Prop where
  | nothing : Stops []
  | dangling : Stops ['\\']
  | mark {c : Char} (hc : c ∈ marks) (t : Text) : Stops (c :: t)

/-- A backslash and whatever character comes next, where nothing is skipped between the two. -/
theorem matches_escaped (hm : m ≠ .skipping) (c : Char) :
    Matches input m (.rule .escaped) ('\\' :: c :: t) (some ([], t)) :=
  .rule (r := .escaped) (.andThen .char (.andThen (.skip_nothing hm) .any))

theorem escaped_none (h : Avoids ['\\'] t) : Matches input m (.rule .escaped) t none :=
  .rule_none (r := .escaped) (.andThen_none_left (char_none h))

theorem matches_separator {c : Char} (hc : c ∈ marks) :
    Matches input m (.rule .separator) (c :: t) (some ([], t)) :=
  .rule (r := .separator) (matches_oneOf hc)

theorem separator_none (h : Avoids marks t) : Matches input m (.rule .separator) t none :=
  .rule_none (r := .separator) (oneOf_none h)

/-- A character that stands for itself is a part of a token. -/
theorem tokenPart_plain {c : Char} (hc : isSpecial c = false) :
    Matches input .atomic Rule.tokenPart (c :: t) (some ([], t)) := by
  obtain ⟨hsep, hsemi, hback⟩ := isSpecial_eq_false_iff.mp hc
  have hmarks : c ∉ marks := by simp [mem_marks_iff, hsep, hsemi]
  have havoid : Avoids ['\\'] (c :: t) := .cons (by simpa using hback)
  have hnot : Matches input .atomic (.orElse (.rule .separator) (.char '\\')) (c :: t) none :=
    .orElse_right (separator_none (.cons hmarks)) (char_none havoid)
  exact .orElse_right (escaped_none havoid)
    (.andThen (.not hnot) (.andThen (skip_atomic (c :: t)) .any))

/-- No part of a token starts at the end, at a gap or at an escape that breaks off. -/
theorem tokenPart_none (h : Stops t) : Matches input .atomic Rule.tokenPart t none := by
  cases h with
  | nothing =>
    have hnot : Matches input .atomic (.orElse (.rule .separator) (.char '\\')) [] none :=
      .orElse_right (separator_none .nil) .char_nil
    exact .orElse_right (escaped_none .nil)
      (.andThen_none_right (.not hnot) (.andThen_none_right (skip_atomic []) .any_nil))
  | dangling =>
    -- the backslash has nothing to escape, and does not stand for itself
    have hescaped : Matches input .atomic (.rule .escaped) ['\\'] none :=
      .rule_none (r := .escaped)
        (.andThen_none_right .char (.andThen_none_right (skip_atomic []) .any_nil))
    exact .orElse_right hescaped
      (.andThen_none_left (.not_none (.orElse_right (separator_none (.cons (by decide))) .char)))
  | @mark c hc u =>
    have hback : c ∉ ['\\'] := by
      rintro h
      obtain rfl := List.mem_singleton.mp h
      exact absurd hc (by decide)
    exact .orElse_right (escaped_none (.cons hback))
      (.andThen_none_left (.not_none (.orElse_left (matches_separator hc))))

/-- Where nothing is skipped, a repetition goes on like one that starts. -/
theorem star_next (hm : m ≠ .skipping) (ha : Matches input m a t (some (ps, u)))
    (h : Matches input m (.star a) u (some (qs, v))) :
    Matches input m (.star a) t (some (ps ++ qs, v)) := by
  have hrest : Matches input m (.repeated (.andThen .skip a)) u (some (qs, v)) := by
    cases h with
    | opt h =>
      cases h with
      | andThen hu hrest => exact .repeated_next (.andThen (.skip_nothing hm) hu) hrest
    | opt_none h =>
      cases h with
      | andThen_none_left hu =>
        exact .repeated_stop (.andThen_none_right (.skip_nothing hm) hu)
      | andThen_none_right _ hrest => cases hrest
  exact .opt (.andThen ha hrest)

/-- The parts of a token are matched one by one. -/
theorem star_tokenPart {token s : Text} (hs : Spells token s) (h : Stops rest) :
    Matches input .atomic (.star Rule.tokenPart) (s ++ rest) (some ([], rest)) := by
  induction hs with
  | nil => exact .opt_none (.andThen_none_left (tokenPart_none h))
  | plain hc _ ih => exact star_next (by decide) (tokenPart_plain hc) ih
  | escaped c _ ih =>
    exact star_next (by decide) (.orElse_left (matches_escaped (by decide) c)) ih

/-- A token reaches as far as its spelling. -/
theorem matches_token (hm : m ≠ .atomic) {token s : Text} (htoken : token ≠ [])
    (hs : Spells token s) (h : Stops rest) :
    Matches input m (.rule .token) (s ++ rest) (some ([⟨.token, s, []⟩], rest)) := by
  have hbody : Matches input .atomic (.plus Rule.tokenPart) (s ++ rest) (some ([], rest)) := by
    cases hs with
    | nil => exact absurd rfl htoken
    | plain hc hs =>
      exact .andThen (tokenPart_plain hc) (.andThen (skip_atomic _) (star_tokenPart hs h))
    | escaped c hs =>
      exact .andThen (.orElse_left (matches_escaped (by decide) c))
        (.andThen (skip_atomic _) (star_tokenPart hs h))
  have hrule := Matches.rule (r := .token) (m := m) hbody
  rwa [Rule.record, Rule.kind, if_neg hm, consumed_append] at hrule

theorem token_none (h : Stops t) : Matches input m (.rule .token) t none :=
  .rule_none (r := .token) (.andThen_none_left (tokenPart_none h))

/-! ## Instructions -/

/-- What is recorded for a part of an instruction. -/
def word (r : Rule) (s : Text) : Pair := ⟨r, s, [⟨.token, s, []⟩]⟩

/-- The name of an instruction and an operand are matched alike. -/
theorem matches_word {r : Rule} (hr : r = .mnemonic ∨ r = .operand) {token s : Text}
    (htoken : token ≠ []) (hs : Spells token s) (h : Stops rest) :
    Matches input m (.rule r) (s ++ rest) (some ([word r s], rest)) := by
  have htoken : Matches input .compound (.rule .token) (s ++ rest)
      (some ([⟨.token, s, []⟩], rest)) := matches_token (by decide) htoken hs h
  rcases hr with rfl | rfl
  · have hrule := Matches.rule (r := .mnemonic) (m := m) htoken
    rwa [consumed_append] at hrule
  · have hrule := Matches.rule (r := .operand) (m := m) htoken
    rwa [consumed_append] at hrule

theorem word_none {r : Rule} (hr : r = .mnemonic ∨ r = .operand) (h : Stops t) :
    Matches input m (.rule r) t none := by
  rcases hr with rfl | rfl
  · exact .rule_none (r := .mnemonic) (token_none h)
  · exact .rule_none (r := .operand) (token_none h)

/-- The end of a line, and what is left of it when gaps are skipped. -/
inductive IsTail : Text → Text → Prop where
  | nothing : IsTail [] []
  | comment (t : Text) : IsTail (';' :: t) []
  | dangling : IsTail ['\\'] ['\\']

/-- What may stand behind a token: further tokens with gaps before them, and then the end. The
tokens are given as they are spelled. -/
inductive Trail (left : Text) : List Text → Text → Prop where
  | stop {gap tail : Text} (hgap : IsGap gap) (htail : IsTail tail left) :
      Trail left [] (gap ++ tail)
  | next {gap token s rest : Text} {words : List Text} (hgap : IsGap gap) (hne : gap ≠ [])
      (htoken : token ≠ []) (hs : Spells token s) (h : Trail left words rest) :
      Trail left (s :: words) (gap ++ (s ++ rest))

variable {left tail : Text} {words : List Text}

theorem IsTail.stops (h : IsTail tail left) : Stops tail := by
  cases h with
  | nothing => exact .nothing
  | comment t => exact .mark (by decide) t
  | dangling => exact .dangling

theorem IsTail.stops_left (h : IsTail tail left) : Stops left := by
  cases h with
  | nothing => exact .nothing
  | comment t => exact .nothing
  | dangling => exact .dangling

/-- A gap at the end is skipped together with the comment. -/
theorem IsTail.skip (h : IsTail tail left) {gap : Text} (hgap : IsGap gap) :
    Matches input .skipping .skip (gap ++ tail) (some ([], left)) := by
  cases h with
  | nothing => exact skip_gap hgap .nil
  | comment t => exact skip_comment hgap t
  | dangling => exact skip_gap hgap (.cons (by decide))

/-- What is left at the end is skipped no further. -/
theorem IsTail.skip_left (h : IsTail tail left) :
    Matches input .skipping .skip left (some ([], left)) := by
  cases h with
  | nothing => exact skip_gap .nil .nil
  | comment t => exact skip_gap .nil .nil
  | dangling => exact skip_gap .nil (.cons (by decide))

/-- What stands behind a token does not belong to it. -/
theorem Trail.stops (h : Trail left words rest) : Stops rest := by
  have hfront : ∀ {gap t : Text}, IsGap gap → gap ≠ [] → Stops (gap ++ t) := by
    intro gap t hgap hne
    cases gap with
    | nil => exact absurd rfl hne
    | cons c gap => exact .mark (mem_marks_iff.mpr (.inl (hgap c List.mem_cons_self))) _
  cases h with
  | @stop gap tail hgap htail =>
    rcases eq_or_ne gap [] with rfl | hne
    · exact htail.stops
    · exact hfront hgap hne
  | next hgap hne => exact hfront hgap hne

/-- A token does not start like a gap. -/
theorem avoids_spells {token s : Text} (hs : Spells token s) (htoken : token ≠ []) (rest : Text) :
    Avoids marks (s ++ rest) := by
  cases hs with
  | nil => exact absurd rfl htoken
  | @plain c _ _ hc hs =>
    obtain ⟨hsep, hsemi, -⟩ := isSpecial_eq_false_iff.mp hc
    exact .cons (by simp [mem_marks_iff, hsep, hsemi])
  | escaped c hs => exact .cons (by decide)

/-- A gap and the operand behind it. -/
theorem skip_operand {gap token s : Text} (hgap : IsGap gap) (htoken : token ≠ [])
    (hs : Spells token s) (h : Stops rest) :
    Matches input .skipping .skip (gap ++ (s ++ rest)) (some ([], s ++ rest)) ∧
      Matches input .skipping (.rule .operand) (s ++ rest) (some ([word .operand s], rest)) :=
  ⟨skip_gap hgap (avoids_spells hs htoken rest), matches_word (.inr rfl) htoken hs h⟩

/-- Operands are matched up to the end of the line. The gap before the end stays. -/
theorem Trail.repeated_operand (h : Trail left words rest) :
    ∃ u, Matches input .skipping (.repeated (.andThen .skip (.rule .operand))) rest
        (some (words.map (word .operand), u)) ∧
      Matches input .skipping .skip u (some ([], left)) := by
  induction h with
  | stop hgap htail =>
    have hnone : Matches input .skipping (.rule .operand) left none :=
      word_none (.inr rfl) htail.stops_left
    exact ⟨_, .repeated_stop (.andThen_none_right (htail.skip hgap) hnone), htail.skip hgap⟩
  | next hgap hne htoken hs h ih =>
    obtain ⟨u, hu, hleft⟩ := ih
    obtain ⟨hskip, hword⟩ := skip_operand hgap htoken hs h.stops
    exact ⟨u, .repeated_next (.andThen hskip hword) hu, hleft⟩

/-- The operands behind the name of an instruction. -/
theorem Trail.operands (h : Trail left words rest) :
    ∃ u, Matches input .skipping (.andThen .skip (.star (.rule .operand))) rest
        (some (words.map (word .operand), u)) ∧
      Matches input .skipping .skip u (some ([], left)) := by
  cases h with
  | stop hgap htail =>
    -- here the gap before the end is skipped, in search of an operand
    have hnone : Matches input .skipping (.rule .operand) left none :=
      word_none (.inr rfl) htail.stops_left
    exact ⟨left, .andThen (htail.skip hgap) (.opt_none (.andThen_none_left hnone)),
      htail.skip_left⟩
  | next hgap hne htoken hs h =>
    obtain ⟨u, hu, hleft⟩ := h.repeated_operand
    obtain ⟨hskip, hword⟩ := skip_operand hgap htoken hs h.stops
    exact ⟨u, .andThen hskip (.opt (.andThen hword hu)), hleft⟩

/-- An instruction with its operands. -/
theorem Trail.instruction (h : Trail left words rest) {token s : Text} (htoken : token ≠ [])
    (hs : Spells token s) :
    ∃ w u, Matches input .skipping (.opt (.rule .instruction)) (s ++ rest)
        (some ([⟨.instruction, w, word .mnemonic s :: words.map (word .operand)⟩], u)) ∧
      Matches input .skipping .skip u (some ([], left)) := by
  obtain ⟨u, hu, hleft⟩ := h.operands
  have hname : Matches input .skipping (.rule .mnemonic) (s ++ rest)
      (some ([word .mnemonic s], rest)) := matches_word (.inl rfl) htoken hs h.stops
  exact ⟨_, u, .opt (.rule (r := .instruction) (.andThen hname hu)), hleft⟩

/-- A line may do without an instruction. -/
theorem instruction_none (h : Stops t) :
    Matches input .skipping (.opt (.rule .instruction)) t (some ([], t)) :=
  .opt_none (.rule_none (r := .instruction) (.andThen_none_left (word_none (.inl rfl) h)))

/-! ## Lines -/

/-- What is recorded between the ends of a line with the given words. -/
inductive Records : List Text → List Pair → Prop where
  | blank : Records [] []
  | instruction (w s : Text) (words : List Text) :
      Records (s :: words) [⟨.instruction, w, word .mnemonic s :: words.map (word .operand)⟩]

/-- Every text has parts: a token, which may be empty, and what stands behind it. -/
theorem exists_trail (text : Text) : ∃ token s left words rest,
    text = s ++ rest ∧ Spells token s ∧ Trail left words rest := by
  fun_induction scan text with
  | case1 => exact ⟨[], [], [], [], [], rfl, .nil, .stop .nil .nothing⟩
  | case2 t => exact ⟨[], [], [], [], _, rfl, .nil, .stop .nil (.comment t)⟩
  | case3 => exact ⟨[], [], _, [], _, rfl, .nil, .stop .nil .dangling⟩
  | case4 c cs ih =>
    obtain ⟨token, s, left, words, rest, rfl, hs, h⟩ := ih
    exact ⟨_, _, left, words, rest, rfl, .escaped c hs, h⟩
  | case5 c cs hsemi hback hback' hc ih =>
    obtain ⟨token, s, left, words, rest, rfl, hs, h⟩ := ih
    rcases eq_or_ne token [] with rfl | hne
    · obtain rfl := hs.eq_nil
      refine ⟨[], [], left, words, _, rfl, .nil, ?_⟩
      cases h with
      | stop hgap htail => exact .stop (hgap.cons hc) htail
      | next hgap hne htoken hs h => exact .next (hgap.cons hc) (by simp) htoken hs h
    · exact ⟨[], [], left, s :: words, _, rfl, .nil, .next (.cons hc .nil) (by simp) hne hs h⟩
  | case6 c cs hsemi hback hback' hc ih =>
    obtain ⟨token, s, left, words, rest, rfl, hs, h⟩ := ih
    have hne := ne_backslash hback hback'
    have hplain := isSpecial_eq_false_iff.mpr ⟨Bool.eq_false_iff.mpr hc, hsemi, hne⟩
    exact ⟨_, _, left, words, rest, rfl, .plain hplain hs, h⟩

/-- Resolving the escapes in a spelling gives the token back. -/
theorem unescape_spells {token s : Text} (h : Spells token s) : unescape s = token := by
  induction h with
  | nil => rfl
  | plain hc h ih =>
    have hback := (isSpecial_eq_false_iff.mp hc).2.2
    rw [unescape, ih]
    exact fun c t hc' => absurd hc' hback
  | escaped c h ih => rw [unescape, ih]

/-- The scanner reads through what stands behind a token, unless an escape breaks off. -/
theorem Trail.scan_eq (h : Trail left words rest) :
    scan rest = if left = [] then some ([], words.map unescape) else none := by
  induction h with
  | @stop gap tail hgap htail =>
    have htail' : scan tail = if left = [] then some ([], []) else none := by
      cases htail with
      | nothing => rfl
      | comment t => exact scan_end (.comment t)
      | dangling => rfl
    rcases eq_or_ne gap [] with rfl | hne
    · exact htail'
    · rw [scan_gap hgap hne, htail']
      split <;> rfl
  | next hgap hne htoken hs h ih =>
    rw [scan_gap hgap hne, scan_spells hs, ih]
    split
    next => simp [flush_of_ne_nil htoken, unescape_spells hs]
    next => rfl

/-- The tokens of a line that starts with a token or none, by what is left at its end. -/
theorem Trail.tokens_eq (h : Trail left words rest) {token s : Text} (hs : Spells token s) :
    Line.tokens (s ++ rest) = if left = [] then .ok (flush token (words.map unescape))
      else .error (.malformed (expectation (s ++ rest))) := by
  rw [Line.tokens, scan_spells hs, h.scan_eq]
  by_cases hleft : left = []
  · simp [hleft]
  · simp [hleft]

/-- What the grammar finds in a text between its two ends. -/
theorem exists_records (text : Text) : ∃ left words v ps u,
    Matches text .skipping .skip text (some ([], v)) ∧
      Matches text .skipping (.opt (.rule .instruction)) v (some (ps, u)) ∧
      Matches text .skipping .skip u (some ([], left)) ∧ Records words ps ∧
      Line.tokens text = if left = [] then .ok (words.map unescape)
        else .error (.malformed (expectation text)) := by
  obtain ⟨token, s, left, words, rest, rfl, hs, h⟩ := exists_trail text
  have htokens := h.tokens_eq hs
  rcases eq_or_ne token [] with rfl | hne
  · -- the text starts with a gap, or has nothing but its end
    obtain rfl := hs.eq_nil
    rw [List.nil_append] at htokens ⊢
    cases h with
    | stop hgap htail =>
      exact ⟨left, [], left, [], left, htail.skip hgap, instruction_none htail.stops_left,
        htail.skip_left, .blank, htokens⟩
    | @next gap token s rest words hgap hne htoken hs h =>
      obtain ⟨w, u, hu, hleft⟩ := h.instruction htoken hs
      exact ⟨left, s :: words, s ++ rest, _, u, skip_gap hgap (avoids_spells hs htoken rest), hu,
        hleft, .instruction w s words, htokens⟩
  · obtain ⟨w, u, hu, hleft⟩ := h.instruction hne hs
    have hskip : Matches (s ++ rest) .skipping .skip ([] ++ (s ++ rest)) (some ([], s ++ rest)) :=
      skip_gap .nil (avoids_spells hs hne rest)
    rw [flush_of_ne_nil hne, ← unescape_spells hs] at htokens
    exact ⟨left, s :: words, s ++ rest, _, u, hskip, hu, hleft, .instruction w s words, htokens⟩

/-- The tokens are found in the records of names and operands, in order. -/
theorem Records.tokens_eq (h : Records words ps) (w : Text) :
    tokens [⟨.line, w, ps ++ [⟨.endOfInput, [], []⟩]⟩] = words.map unescape := by
  cases h with
  | blank => rfl
  | instruction w' s words =>
    change (word .mnemonic s :: words.map (word .operand)).map (fun q => unescape q.text) = _
    rw [List.map_cons, List.map_map]
    rfl

end Grammar

/-- The grammar has exactly one outcome for every line. The tokens of a line are those that are
found in it, and the line is refused if there is no match. -/
theorem tokens_agree_with_grammar (text : Text) : ∃ outcome,
    (∀ o, Grammar.Matches text .skipping (.rule .line) text o ↔ o = outcome) ∧
      Line.tokens text = match outcome with
        | some (pairs, _) => .ok (Grammar.tokens pairs)
        | none => .error (.malformed (Line.expectation text)) := by
  obtain ⟨left, words, v, ps, u, hskip, hinstruction, hleft, hrecords, htokens⟩ :=
    Grammar.exists_records text
  -- it is enough to find one outcome
  suffices h : ∃ outcome, Grammar.Matches text .skipping (.rule .line) text outcome ∧
      Line.tokens text = match outcome with
        | some (pairs, _) => .ok (Grammar.tokens pairs)
        | none => .error (.malformed (Line.expectation text)) by
    obtain ⟨outcome, hmatch, heq⟩ := h
    refine ⟨outcome, fun o => ⟨fun ho => ho.unique hmatch, ?_⟩, heq⟩
    rintro rfl
    exact hmatch
  cases left with
  | nil =>
    have hend : Grammar.Matches text .skipping (.rule .endOfInput) []
        (some ([⟨.endOfInput, [], []⟩], [])) := .rule (r := .endOfInput) .finish
    refine ⟨_, .rule (r := .line) (.andThen .start (.andThen hskip (.andThen hinstruction
      (.andThen hleft hend)))), htokens.trans ?_⟩
    exact congrArg Except.ok (hrecords.tokens_eq _).symm
  | cons c left =>
    have hend : Grammar.Matches text .skipping (.rule .endOfInput) (c :: left) none :=
      .rule_none (r := .endOfInput) .finish_cons
    exact ⟨none, .rule_none (r := .line) (.andThen_none_right .start (.andThen_none_right hskip
      (.andThen_none_right hinstruction (.andThen_none_right hleft hend)))), htokens⟩

end TwinRom
