import Mathlib.Logic.Basic
import TwinRom.Source.Line

/-!
# Layout of lines

The texts that stand for a row of tokens. A token is spelled with a backslash before every
character that would not stand for itself, and before any other at will (`Line.Spells`). Tokens
are kept apart by gaps, and behind the last of them a comment may start (`Line.Follows`).

`Line.Writes` puts this together without a word on how a line is read. Reading finds the tokens of
every text that writes some, and accepts no other text (`tokens_eq_ok_iff_writes`).
-/

namespace TwinRom

namespace Line

/-! ## Spellings -/

/-- The characters that do not stand for themselves. -/
def isSpecial (c : Char) : Bool := isSeparator c || c == ';' || c == '\\'

/-- The characters that stand for themselves within a token. -/
theorem isSpecial_eq_false_iff {c : Char} :
    isSpecial c = false ↔ isSeparator c = false ∧ c ≠ ';' ∧ c ≠ '\\' := by
  simp [isSpecial, and_assoc]

/-- The spellings of a token. -/
inductive Spells : Text → Text → Prop where
  | nil : Spells [] []
  | plain {c : Char} {token s : Text} (hc : isSpecial c = false) (h : Spells token s) :
      Spells (c :: token) (c :: s)
  | escaped (c : Char) {token s : Text} (h : Spells token s) :
      Spells (c :: token) ('\\' :: c :: s)

/-- A row of separators. -/
def IsGap (gap : Text) : Prop := ∀ c ∈ gap, isSeparator c = true

/-- What may stand at the end of a line: nothing, or a comment. -/
inductive IsEnd : Text → Prop where
  | nothing : IsEnd []
  | comment (t : Text) : IsEnd (';' :: t)

/-- What may follow a token: further tokens with gaps before them, and then the end. -/
inductive Follows : List Text → Text → Prop where
  | stop {gap rest : Text} (hgap : IsGap gap) (hrest : IsEnd rest) : Follows [] (gap ++ rest)
  | next {gap token s rest : Text} {tokens : List Text} (hgap : IsGap gap) (hne : gap ≠ [])
      (htoken : token ≠ []) (hs : Spells token s) (h : Follows tokens rest) :
      Follows (token :: tokens) (gap ++ (s ++ rest))

/-- The texts that write a row of tokens. -/
inductive Writes : List Text → Text → Prop where
  | blank {gap rest : Text} (hgap : IsGap gap) (hrest : IsEnd rest) : Writes [] (gap ++ rest)
  | row {gap token s rest : Text} {tokens : List Text} (hgap : IsGap gap) (htoken : token ≠ [])
      (hs : Spells token s) (h : Follows tokens rest) :
      Writes (token :: tokens) (gap ++ (s ++ rest))

/-! ## Reading what is written -/

theorem scan_cons {c : Char} (hsemi : c ≠ ';') (hback : c ≠ '\\') (cs : Text) :
    scan (c :: cs) = if isSeparator c then (scan cs).map fun r => ([], flush r.1 r.2)
      else (scan cs).map fun r => (c :: r.1, r.2) := by
  rw [scan]
  · exact hsemi
  · exact fun h => absurd h hback
  · exact fun _ _ h => absurd h hback

/-- A character that stands for itself is added to the token behind it. -/
theorem scan_plain {c : Char} (hc : isSpecial c = false) (cs : Text) :
    scan (c :: cs) = (scan cs).map fun r => (c :: r.1, r.2) := by
  obtain ⟨hsep, hsemi, hback⟩ := isSpecial_eq_false_iff.mp hc
  rw [scan_cons hsemi hback, hsep]
  rfl

/-- A separator ends the token before it, which may be empty. -/
theorem scan_separator {c : Char} (hc : isSeparator c = true) (cs : Text) :
    scan (c :: cs) = (scan cs).map fun r => ([], flush r.1 r.2) := by
  rw [scan_cons ?_ ?_, if_pos hc]
  · rintro rfl
    cases hc
  · rintro rfl
    cases hc

/-- However a token is spelled, the scanner reads the token. -/
theorem scan_spells {token s : Text} (h : Spells token s) (rest : Text) :
    scan (s ++ rest) = (scan rest).map fun r => (token ++ r.1, r.2) := by
  induction h with
  | nil => simp
  | plain hc h ih =>
    rw [List.cons_append, scan_plain hc, ih]
    simp [Function.comp_def]
  | escaped c h ih =>
    rw [List.cons_append, List.cons_append, scan, ih]
    simp [Function.comp_def]

/-- A gap ends the token before it and starts no token. -/
theorem scan_gap : ∀ {gap : Text}, IsGap gap → gap ≠ [] → ∀ rest,
    scan (gap ++ rest) = (scan rest).map fun r => ([], flush r.1 r.2)
  | [c], hgap, _, rest => scan_separator (hgap c (by simp)) rest
  | c :: c' :: gap, hgap, _, rest => by
    have hgap' : IsGap (c' :: gap) := fun d hd => hgap d (List.mem_cons_of_mem c hd)
    rw [List.cons_append, scan_separator (hgap c (by simp)), scan_gap hgap' (by simp)]
    simp [Function.comp_def]

/-- A character that is read as none of the escapes is no backslash. -/
theorem ne_backslash {c : Char} {cs : Text} (hlast : c = '\\' → cs = [] → False)
    (hpair : ∀ d ds, c = '\\' → cs = d :: ds → False) : c ≠ '\\' := by
  rintro rfl
  cases cs with
  | nil => exact hlast rfl rfl
  | cons d ds => exact hpair d ds rfl rfl

theorem scan_end {rest : Text} (h : IsEnd rest) : scan rest = some ([], []) := by
  cases h <;> simp [scan]

theorem flush_of_ne_nil {token : Text} (h : token ≠ []) (tokens : List Text) :
    flush token tokens = token :: tokens := by
  rw [flush, List.isEmpty_eq_false_iff.mpr h]
  rfl

/-- Behind a token, the scanner finds the tokens that follow. -/
theorem scan_follows {tokens : List Text} {rest : Text} (h : Follows tokens rest) :
    scan rest = some ([], tokens) := by
  induction h with
  | @stop gap rest hgap hrest =>
    rcases eq_or_ne gap [] with rfl | hne
    · exact scan_end hrest
    · rw [scan_gap hgap hne, scan_end hrest]
      rfl
  | next hgap hne htoken hs h ih =>
    rw [scan_gap hgap hne, scan_spells hs, ih]
    simp [flush_of_ne_nil htoken]

theorem tokens_of_scan {text token : Text} {tokens : List Text}
    (h : scan text = some (token, tokens)) : Line.tokens text = .ok (flush token tokens) := by
  rw [Line.tokens, h]

/-- A text that writes some tokens is read as these tokens. -/
theorem Writes.tokens_eq {tokens : List Text} {text : Text} (h : Writes tokens text) :
    Line.tokens text = .ok tokens := by
  cases h with
  | blank hgap hrest => exact tokens_of_scan (scan_follows (.stop hgap hrest))
  | @row gap token s rest tokens hgap htoken hs h =>
    have hscan : scan (s ++ rest) = some (token, tokens) := by
      rw [scan_spells hs, scan_follows h]
      simp
    rw [← flush_of_ne_nil htoken]
    rcases eq_or_ne gap [] with rfl | hne
    · exact tokens_of_scan hscan
    · have hgaps : scan (gap ++ (s ++ rest)) = some ([], flush token tokens) := by
        rw [scan_gap hgap hne, hscan]
        rfl
      rw [tokens_of_scan hgaps, flush_nil]

/-! ## Writing what is read -/

theorem IsGap.cons {c : Char} {gap : Text} (hc : isSeparator c = true) (h : IsGap gap) :
    IsGap (c :: gap) :=
  List.forall_mem_cons.mpr ⟨hc, h⟩

theorem IsGap.nil : IsGap [] := List.forall_mem_nil _

theorem Spells.eq_nil {s : Text} (h : Spells [] s) : s = [] := by
  cases h
  rfl

/-- A gap may be longer. -/
theorem Follows.cons_separator {c : Char} (hc : isSeparator c = true) {tokens : List Text}
    {rest : Text} (h : Follows tokens rest) : Follows tokens (c :: rest) := by
  cases h with
  | stop hgap hrest => exact .stop (hgap.cons hc) hrest
  | next hgap hne htoken hs h => exact .next (hgap.cons hc) (by simp) htoken hs h

/-- What follows a token could as well be a line of its own. -/
theorem Follows.writes {tokens : List Text} {rest : Text} (h : Follows tokens rest) :
    Writes tokens rest := by
  cases h with
  | stop hgap hrest => exact .blank hgap hrest
  | next hgap hne htoken hs h => exact .row hgap htoken hs h

/-- What is read of a text is the spelling of a token and what follows it. -/
theorem exists_of_scan {text token : Text} {tokens : List Text}
    (h : scan text = some (token, tokens)) :
    ∃ s rest, text = s ++ rest ∧ Spells token s ∧ Follows tokens rest := by
  fun_induction scan text generalizing token tokens with
  | case1 =>
    obtain ⟨rfl, rfl⟩ := Prod.mk.inj (Option.some.inj h)
    exact ⟨[], [], rfl, .nil, .stop .nil .nothing⟩
  | case2 cs =>
    obtain ⟨rfl, rfl⟩ := Prod.mk.inj (Option.some.inj h)
    exact ⟨[], _, rfl, .nil, .stop .nil (.comment cs)⟩
  | case3 => cases h
  | case4 c cs ih =>
    obtain ⟨⟨token', tokens'⟩, hscan, heq⟩ := Option.map_eq_some_iff.mp h
    obtain ⟨rfl, rfl⟩ := Prod.mk.inj heq
    obtain ⟨s, rest, rfl, hs, hrest⟩ := ih hscan
    exact ⟨'\\' :: c :: s, rest, rfl, .escaped c hs, hrest⟩
  | case5 c cs hsemi hback hback' hc ih =>
    obtain ⟨⟨token', tokens'⟩, hscan, heq⟩ := Option.map_eq_some_iff.mp h
    obtain ⟨rfl, rfl⟩ := Prod.mk.inj heq
    obtain ⟨s, rest, rfl, hs, hrest⟩ := ih hscan
    refine ⟨[], _, rfl, .nil, ?_⟩
    -- the gap goes on behind the separator, or a token starts there
    rcases eq_or_ne token' [] with rfl | hne
    · obtain rfl := hs.eq_nil
      exact hrest.cons_separator hc
    · rw [flush_of_ne_nil hne]
      exact .next (.cons hc .nil) (by simp) hne hs hrest
  | case6 c cs hsemi hback hback' hc ih =>
    obtain ⟨⟨token', tokens'⟩, hscan, heq⟩ := Option.map_eq_some_iff.mp h
    obtain ⟨rfl, rfl⟩ := Prod.mk.inj heq
    have hne := ne_backslash hback hback'
    have hplain := isSpecial_eq_false_iff.mpr ⟨Bool.eq_false_iff.mpr hc, hsemi, hne⟩
    obtain ⟨s, rest, rfl, hs, hrest⟩ := ih hscan
    exact ⟨c :: s, rest, rfl, .plain hplain hs, hrest⟩

/-- A text that is read as some tokens writes them. -/
theorem writes_of_tokens {text : Text} {tokens : List Text} (h : Line.tokens text = .ok tokens) :
    Writes tokens text := by
  unfold Line.tokens at h
  split at h
  next token tokens' hscan =>
    obtain rfl := Except.ok.inj h
    obtain ⟨s, rest, rfl, hs, hrest⟩ := exists_of_scan hscan
    rcases eq_or_ne token [] with rfl | hne
    · obtain rfl := hs.eq_nil
      exact hrest.writes
    · rw [flush_of_ne_nil hne]
      exact .row .nil hne hs hrest
  next => cases h

/-! ## What can be written -/

theorem Follows.ne_nil {tokens : List Text} {rest : Text} (h : Follows tokens rest) :
    ∀ t ∈ tokens, t ≠ [] := by
  induction h with
  | stop => exact List.forall_mem_nil _
  | next _ _ htoken _ _ ih => exact List.forall_mem_cons.mpr ⟨htoken, ih⟩

/-- No token is empty, not even where separators follow each other. -/
theorem Writes.ne_nil {tokens : List Text} {text : Text} (h : Writes tokens text) :
    ∀ t ∈ tokens, t ≠ [] := by
  cases h with
  | blank => exact List.forall_mem_nil _
  | row _ htoken _ h => exact List.forall_mem_cons.mpr ⟨htoken, h.ne_nil⟩

/-- Every token can be spelled, by escaping all of it. -/
theorem exists_spells : ∀ token : Text, ∃ s, Spells token s
  | [] => ⟨[], .nil⟩
  | c :: token =>
    let ⟨_, h⟩ := exists_spells token
    ⟨_, .escaped c h⟩

/-- Tokens that are not empty can be written one after the other. -/
theorem exists_follows : ∀ {tokens : List Text}, (∀ t ∈ tokens, t ≠ []) →
    ∃ rest, Follows tokens rest
  | [], _ => ⟨_, .stop .nil .nothing⟩
  | token :: tokens, h => by
    obtain ⟨htoken, h⟩ := List.forall_mem_cons.mp h
    obtain ⟨s, hs⟩ := exists_spells token
    obtain ⟨rest, hrest⟩ := exists_follows h
    exact ⟨_, .next (.cons (c := ' ') rfl .nil) (by simp) htoken hs hrest⟩

end Line

/-- Every row of tokens that are not empty can be written, and reading a text gives the tokens that
it writes: however they are spelled, whatever the gaps, and with or without a comment. A text that
writes none, being blank or a comment, gives none. No other text is accepted. -/
theorem tokens_eq_ok_iff_writes (tokens : List Text) :
    ((∃ text, Line.Writes tokens text) ↔ ∀ t ∈ tokens, t ≠ []) ∧
      ∀ text, Line.tokens text = .ok tokens ↔ Line.Writes tokens text := by
  refine ⟨⟨fun ⟨_, h⟩ => h.ne_nil, fun h => ?_⟩, fun text => ⟨Line.writes_of_tokens, ?_⟩⟩
  · obtain ⟨text, htext⟩ := Line.exists_follows h
    exact ⟨text, htext.writes⟩
  · exact Line.Writes.tokens_eq

example : Line.tokens " \\f\\;oo\\\\,\t\\,b;no more \\".toList =
    .ok ["f;oo\\".toList, ",b".toList] := rfl

end TwinRom
