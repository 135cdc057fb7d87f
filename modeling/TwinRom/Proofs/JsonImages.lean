import TwinRom.Proofs.Digits
import TwinRom.Proofs.Outcome
import TwinRom.Rom.JsonText

/-!
# JSON images in any layout

The words of a JSON text that holds two streams are listed in `Json.WordsOf`: those of an object
with one member for each stream, in either order, or of an array of both. Blanks may stand before,
between and behind them (`Json.Spaced`).

Such a text is taken apart word by word. A number ends where a comma, a bracket or a blank follows,
and the rest of the words is left for what is read next. A reader finds the streams, whatever the
layout (`JsonText.read_of_spaced`), so it finds all bytes of an image in the text that the image is
written as (`JsonText.read_render`).
-/

namespace TwinRom.Json

/-! ## Numbers -/

namespace Numeral

/-- A decimal number starts with a digit, and with a zero only if it is zero. -/
theorem decimal_eq_cons (n : Nat) : ∃ c cs, Text.decimal n = c :: cs ∧ c.isDigit = true ∧
    (n ≠ 0 → c ≠ '0') := by
  induction n using Nat.strongRecOn with
  | ind n ih =>
    rcases Nat.lt_or_ge n 10 with hlt | hge
    · have hdigit : ∀ d < 10, (Nat.digitChar d).isDigit = true ∧
          (d ≠ 0 → Nat.digitChar d ≠ '0') := by
        decide
      exact ⟨_, [], Nat.toDigits_of_lt_base hlt, hdigit n hlt⟩
    · obtain ⟨c, cs, hcs, hc, hzero⟩ := ih (n / 10) (by omega)
      refine ⟨c, cs ++ [(n % 10).digitChar], ?_, hc, fun _ => hzero (by omega)⟩
      rw [Text.decimal, Nat.toDigits_of_base_le (by decide) hge]
      exact congrArg (· ++ [(n % 10).digitChar]) hcs

/-- A character that ends a number. -/
def Stops (c : Char) : Prop := c = ',' ∨ c = ']' ∨ isBlank c = true

theorem isBlank_iff {c : Char} : isBlank c = true ↔ c = ' ' ∨ c = '\t' ∨ c = '\n' ∨ c = '\r' := by
  simp [isBlank, or_assoc]

theorem Stops.not_isDigit {c : Char} (h : Stops c) : c.isDigit = false := by
  rw [Stops, isBlank_iff] at h
  rcases h with rfl | rfl | rfl | rfl | rfl | rfl <;> rfl

variable {d : Char} {rest : Text}

/-- Digits are taken up to the first character that is none. -/
theorem digits_append {t : Text} (hne : t ≠ []) (ht : ∀ c ∈ t, c.isDigit = true)
    (hd : d.isDigit = false) : digits (t ++ d :: rest) = .ok (t, d :: rest) := by
  obtain ⟨c, cs, rfl⟩ := List.exists_cons_of_ne_nil hne
  have hcs : ∀ e ∈ cs, e.isDigit = true := fun e he => ht e (List.mem_cons_of_mem c he)
  rw [List.cons_append, digits, if_pos (ht c List.mem_cons_self),
    List.takeWhile_append_of_pos hcs, List.dropWhile_append_of_pos hcs,
    List.takeWhile_cons_of_neg (by simp [hd]), List.dropWhile_cons_of_neg (by simp [hd]),
    List.append_nil]

/-- A decimal number is read whole. Its only leading zero can be the number zero itself. -/
theorem scanWhole_decimal (n : Nat) (hd : d.isDigit = false) :
    scanWhole (Text.decimal n ++ d :: rest) = .ok (Text.decimal n, d :: rest) := by
  by_cases hn : n = 0
  · subst hn
    rw [Text.decimal, Nat.toDigits_zero]
    exact if_neg (by simp [hd])
  · have hdigits : digits (Text.decimal n ++ d :: rest) = .ok (Text.decimal n, d :: rest) :=
      digits_append (Text.isWord_decimal n).ne_nil (fun c => Text.isDigit_of_mem_decimal) hd
    obtain ⟨c, cs, hcs, -, hzero⟩ := decimal_eq_cons n
    unfold scanWhole
    split
    next heq =>
      rw [hcs] at heq
      exact absurd (List.cons.inj heq).1 (hzero hn)
    next => exact hdigits

/-- A decimal number has no sign, no fraction and no exponent. -/
theorem scan_decimal (n : Nat) (hd : Stops d) :
    scan (Text.decimal n ++ d :: rest) = .ok (⟨false, Text.decimal n, none, none⟩, d :: rest) := by
  have hminus : scanMinus (Text.decimal n ++ d :: rest) = (false, Text.decimal n ++ d :: rest) := by
    obtain ⟨c, cs, hcs, hdigit, -⟩ := decimal_eq_cons n
    unfold scanMinus
    split
    next heq =>
      rw [hcs] at heq
      rw [(List.cons.inj heq).1] at hdigit
      cases hdigit
    next => rfl
  have hstop := hd
  rw [Stops, isBlank_iff] at hstop
  have hfraction : scanFraction (d :: rest) = .ok (none, d :: rest) := by
    rcases hstop with rfl | rfl | rfl | rfl | rfl | rfl <;> rfl
  have hexponent : scanExponent (d :: rest) = .ok (none, d :: rest) := by
    rcases hstop with rfl | rfl | rfl | rfl | rfl | rfl <;> rfl
  unfold scan
  rw [hminus]
  exact bind_eq_ok_iff.mpr ⟨_, scanWhole_decimal n hd.not_isDigit,
    bind_eq_ok_iff.mpr ⟨_, hfraction, bind_eq_ok_iff.mpr ⟨_, hexponent, rfl⟩⟩⟩

theorem natOf_decimal (n : Nat) : natOf (Text.decimal n) = n := by
  rw [natOf, Text.natFrom?_decimal, Option.getD_some]

end Numeral

/-! ## Tokens -/

/-- A character that is not blank starts the next token. -/
theorem tokens_cons {c : Char} {cs rest : Text} {t : Token} (hblank : isBlank c = false)
    (h : token c cs = (t, some rest)) : tokens (c :: cs) = t :: tokens rest := by
  rw [tokens, if_neg (by simp [hblank])]
  split
  next heq =>
    obtain ⟨rfl, hrest⟩ := Prod.mk.inj (heq.symm.trans h)
    rw [Option.some.inj hrest]
  next heq => cases heq.symm.trans h

/-- Blanks between tokens are skipped. -/
theorem tokens_blank {c : Char} (hc : isBlank c = true) (cs : Text) :
    tokens (c :: cs) = tokens cs := by
  rw [tokens, if_pos hc]

theorem token_digit {c : Char} (h : c.isDigit = true) (cs : Text) :
    token c cs = numberToken (c :: cs) := by
  unfold token
  split
  case h_11 => exact if_pos (.inr h)
  all_goals cases h

/-- A decimal number as a token. -/
def decimalToken (n : Nat) : Token := .number (.ok ⟨false, Text.decimal n, none, none⟩)

/-- A decimal number is one token, whatever ends it. -/
theorem tokens_decimal (n : Nat) {d : Char} (hd : Numeral.Stops d) (rest : Text) :
    tokens (Text.decimal n ++ d :: rest) = decimalToken n :: tokens (d :: rest) := by
  obtain ⟨c, cs, hcs, hdigit, -⟩ := Numeral.decimal_eq_cons n
  have hblank : isBlank c = false := by
    simp only [isBlank, Bool.or_eq_false_iff, beq_eq_false_iff_ne]
    refine ⟨⟨⟨?_, ?_⟩, ?_⟩, ?_⟩ <;> rintro rfl <;> cases hdigit
  have htoken : token c (cs ++ d :: rest) = (decimalToken n, some (d :: rest)) := by
    rw [token_digit hdigit, ← List.cons_append, ← hcs, numberToken, Numeral.scan_decimal n hd]
    rfl
  rw [hcs, List.cons_append]
  exact tokens_cons hblank htoken

/-- A byte that is written in decimal is within the range of a byte. -/
theorem byte_decimalToken (b : UInt8) : byte (decimalToken b.toNat) = .ok b := by
  have hb : b.toNat < 256 := b.toNat_lt
  have hsize : b.toNat < UInt64.size := Nat.lt_trans hb (by decide)
  have hvalue : Numeral.value? ⟨false, Text.decimal b.toNat, none, none⟩ =
      some (.integer (Int.ofNat b.toNat)) := by
    simp [Numeral.value?, Numeral.integer?, Numeral.natOf_decimal, hsize]
  have hrange : 0 ≤ Int.ofNat b.toNat ∧ Int.ofNat b.toNat < 256 :=
    ⟨Int.natCast_nonneg _, Int.ofNat_lt.mpr hb⟩
  simp only [byte, decimalToken, hvalue, if_pos hrange]
  exact congrArg Except.ok UInt8.ofNat_toNat

/-! ## Words -/

/-- The texts of some words with any blanks before, between and behind them. -/
inductive Spaced : List Text → Text → Prop where
  | nil : Spaced [] []
  | blank {c : Char} {ws : List Text} {t : Text} (hc : isBlank c = true) (h : Spaced ws t) :
      Spaced ws (c :: t)
  | word (w : Text) {ws : List Text} {t : Text} (h : Spaced ws t) : Spaced (w :: ws) (w ++ t)

variable {ws : List Text} {t : Text}

theorem Spaced.tokens_eq_nil : ∀ {t : Text}, Spaced [] t → tokens t = []
  | _, .nil => by rw [tokens]
  | _, .blank hc h => (tokens_blank hc _).trans h.tokens_eq_nil

/-- The first word may be taken to stand at the start of the text. -/
theorem Spaced.exists_rest {w : Text} : ∀ {t : Text}, Spaced (w :: ws) t →
    ∃ rest, Spaced ws rest ∧ tokens t = tokens (w ++ rest)
  | _, .blank hc h =>
    let ⟨rest, hrest, ht⟩ := h.exists_rest
    ⟨rest, hrest, (tokens_blank hc _).trans ht⟩
  | _, .word _ h => ⟨_, h, rfl⟩

/-- A mark is a token by itself, with or without blanks before it. -/
theorem Spaced.mark {c : Char} {k : Token} (hblank : isBlank c = false)
    (hk : ∀ cs, token c cs = (k, some cs)) (h : Spaced ([c] :: ws) t) :
    ∃ rest, Spaced ws rest ∧ tokens t = k :: tokens rest := by
  obtain ⟨rest, hrest, ht⟩ := h.exists_rest
  exact ⟨rest, hrest, ht.trans (tokens_cons hblank (hk rest))⟩

/-- A number stands before a comma or a bracket, with or without a blank between. -/
theorem Spaced.number {n : Nat} {c : Char} (hc : c = ',' ∨ c = ']')
    (h : Spaced (Text.decimal n :: [c] :: ws) t) :
    ∃ rest, Spaced ([c] :: ws) rest ∧ tokens t = decimalToken n :: tokens rest := by
  obtain ⟨rest, hrest, ht⟩ := h.exists_rest
  -- what follows the number starts with a blank or with the mark itself
  obtain ⟨d, cs, rfl, hd⟩ : ∃ d cs, rest = d :: cs ∧ Numeral.Stops d := by
    rcases hrest with _ | ⟨hblank, _⟩ | ⟨_, _⟩
    · exact ⟨_, _, rfl, .inr (.inr hblank)⟩
    · exact ⟨_, _, rfl, hc.imp_right .inl⟩
  exact ⟨_, hrest, ht.trans (tokens_decimal n hd cs)⟩

theorem Spaced.append_blank {c : Char} (hc : isBlank c = true) (h : Spaced ws t) :
    Spaced ws (t ++ [c]) := by
  induction h with
  | nil => exact .blank hc .nil
  | blank hd _ ih => exact .blank hd ih
  | word w _ ih =>
    rw [List.append_assoc]
    exact .word w ih

/-- The words without any blanks. -/
theorem spaced_flatten : ∀ ws : List Text, Spaced ws ws.flatten
  | [] => .nil
  | w :: ws => .word w (spaced_flatten ws)

/-! ## Arrays -/

/-- The words of an array of bytes. -/
def arrayWords (bytes : List UInt8) : List Text :=
  ['['] :: (bytes.map fun b => Text.decimal b.toNat).intersperse [','] ++ [[']']]

/-- The words behind the first element of an array. -/
def moreWords (bytes : List UInt8) : List Text :=
  bytes.flatMap (fun b => [[','], Text.decimal b.toNat]) ++ [[']']]

/-- Every element of an array but the first has a comma before it. -/
theorem arrayWords_cons (b : UInt8) (bytes : List UInt8) :
    arrayWords (b :: bytes) = ['['] :: Text.decimal b.toNat :: moreWords bytes := by
  have hmore : ∀ (b : UInt8) (bytes : List UInt8),
      ((b :: bytes).map fun b => Text.decimal b.toNat).intersperse [','] =
        Text.decimal b.toNat :: bytes.flatMap fun b => [[','], Text.decimal b.toNat] := by
    intro b bytes
    induction bytes generalizing b with
    | nil => rfl
    | cons c bytes ih => simpa using ih c
  rw [arrayWords, hmore]
  rfl

/-- The first element is followed by a comma or by the end of the array. -/
theorem exists_moreWords (bytes : List UInt8) (ws : List Text) :
    ∃ c ws', moreWords bytes ++ ws = [c] :: ws' ∧ (c = ',' ∨ c = ']') := by
  rcases bytes with _ | ⟨b, bytes⟩
  · exact ⟨']', ws, rfl, .inr rfl⟩
  · exact ⟨',', _, rfl, .inl rfl⟩

/-- A number in front of further elements. -/
theorem Spaced.element {n : Nat} {bytes : List UInt8}
    (h : Spaced (Text.decimal n :: (moreWords bytes ++ ws)) t) :
    ∃ rest, Spaced (moreWords bytes ++ ws) rest ∧ tokens t = decimalToken n :: tokens rest := by
  obtain ⟨c, ws', hws, hc⟩ := exists_moreWords bytes ws
  rw [hws] at h ⊢
  exact h.number hc

/-- The elements are read up to the bracket, and what stands behind it is left. -/
theorem Spaced.moreBytes_eq : ∀ {bytes : List UInt8} {t : Text},
    Spaced (moreWords bytes ++ ws) t →
      ∃ rest, Spaced ws rest ∧ moreBytes (tokens t) = .ok (bytes, tokens rest)
  | [], t, h => by
    obtain ⟨rest, hrest, ht⟩ := Spaced.mark (k := .closing .list) rfl (fun _ => rfl) h
    exact ⟨rest, hrest, by rw [ht, moreBytes]⟩
  | b :: bytes, t, h => by
    obtain ⟨t₁, h₁, ht₁⟩ := Spaced.mark (k := .comma) rfl (fun _ => rfl) h
    obtain ⟨t₂, h₂, ht₂⟩ := Spaced.element h₁
    obtain ⟨rest, hrest, hmore⟩ := Spaced.moreBytes_eq h₂
    refine ⟨rest, hrest, ?_⟩
    rw [ht₁, ht₂, decimalToken, moreBytes, ← decimalToken, byte_decimalToken, hmore]
    · rfl
    · intro hclosing
      cases hclosing

/-- An array of bytes is read, and what stands behind it is left. -/
theorem Spaced.stream_eq {bytes : List UInt8} (h : Spaced (arrayWords bytes ++ ws) t) :
    ∃ rest, Spaced ws rest ∧ stream (tokens t) = .ok (bytes, tokens rest) := by
  rcases bytes with _ | ⟨b, bytes⟩
  · obtain ⟨t₁, h₁, ht₁⟩ := Spaced.mark (k := .opening .list) rfl (fun _ => rfl) h
    obtain ⟨rest, hrest, ht⟩ := Spaced.mark (k := .closing .list) rfl (fun _ => rfl) h₁
    exact ⟨rest, hrest, by rw [ht₁, ht, stream, Json.bytes]⟩
  · rw [arrayWords_cons] at h
    obtain ⟨t₁, h₁, ht₁⟩ := Spaced.mark (k := .opening .list) rfl (fun _ => rfl) h
    obtain ⟨t₂, h₂, ht₂⟩ := Spaced.element h₁
    obtain ⟨rest, hrest, hmore⟩ := h₂.moreBytes_eq
    refine ⟨rest, hrest, ?_⟩
    rw [ht₁, ht₂, stream, decimalToken, Json.bytes, ← decimalToken, byte_decimalToken, hmore]
    · rfl
    · intro hclosing
      cases hclosing

/-- The first token of an array tells that it is one. -/
theorem Spaced.exists_opening {bytes : List UInt8} (h : Spaced (arrayWords bytes ++ ws) t) :
    ∃ ts, tokens t = .opening .list :: ts := by
  obtain ⟨rest, -, ht⟩ := Spaced.mark (k := .opening .list) rfl (fun _ => rfl) h
  exact ⟨_, ht⟩

/-! ## Members -/

/-- The characters that stand for themselves in a string. -/
def isPlain (c : Char) : Bool := 0x20 ≤ c.toNat && c != '"' && c != '\\'

/-- How a key may be written: each character as it is, or by its number in an escape. No key has a
character with a shorter escape. -/
inductive SpellsKey : Text → Text → Prop where
  | nil : SpellsKey [] []
  | plain {c : Char} {name key : Text} (hc : isPlain c = true) (h : SpellsKey name key) :
      SpellsKey (c :: name) (c :: key)
  | code {c : Char} {ds name key : Text} (hds : Text.WritesNat 16 c.toNat ds)
      (hlen : ds.length = 4) (h : SpellsKey name key) :
      SpellsKey (c :: name) ('\\' :: 'u' :: (ds ++ key))

/-- A key without special characters may be written as it is. -/
theorem SpellsKey.self {name : Text} (h : name.all isPlain = true) : SpellsKey name name := by
  induction name with
  | nil => exact .nil
  | cons c name ih =>
    rw [List.all_cons, Bool.and_eq_true] at h
    exact .plain h.1 (ih h.2)

namespace StringBody

theorem scan_plain {c : Char} (hc : isPlain c = true) (cs : Text) :
    scan (c :: cs) = cons (.char c) (scan cs) := by
  simp only [isPlain, Bool.and_eq_true, decide_eq_true_eq, bne_iff_ne] at hc
  obtain ⟨⟨hcontrol, hquote⟩, hescape⟩ := hc
  rw [scan, if_neg (Nat.not_lt.mpr hcontrol)]
  · exact hquote
  · exact fun heq _ => hescape heq
  all_goals
    intros
    exact hescape ‹_›

/-- Four hexadecimal digits behind `\u` are one character, given by its number. -/
theorem scan_code {n : Nat} {ds : Text} (hds : Text.WritesNat 16 n ds) (hlen : ds.length = 4)
    (cs : Text) : scan ('\\' :: 'u' :: (ds ++ cs)) = cons (.code n) (scan cs) := by
  obtain ⟨a, b, c, d, rfl⟩ : ∃ a b c d, ds = [a, b, c, d] := by
    match ds, hlen with
    | [a, b, c, d], _ => exact ⟨a, b, c, d, rfl⟩
  have hnat : Text.nat? 16 [a, b, c, d] = some n := Text.nat?_eq_some_iff.mpr hds
  rw [List.cons_append, List.cons_append, List.cons_append, List.cons_append, List.nil_append,
    scan, hnat]

/-- A character is never half of a surrogate pair. -/
theorem join_code (c : Char) (ending : Ending) (defect? : Option Fault)
    (us : List StringBody.Unit) :
    join ending defect? (.code c.toNat :: us) = (join ending defect? us).map (c :: ·) := by
  have hvalid : c.toNat < 0xD800 ∨ 0xDFFF < c.toNat := c.valid.imp_right And.left
  have htrailing : isTrailing c.toNat = false := by
    simp only [isTrailing, Bool.and_eq_false_iff, decide_eq_false_iff_not]
    omega
  have hleading : isLeading c.toNat = false := by
    simp only [isLeading, Bool.and_eq_false_iff, decide_eq_false_iff_not]
    omega
  conv_lhs => unfold join
  simp [htrailing, hleading]

end StringBody

/-- A string that spells a key has its text, and ends at the next quotation mark. -/
theorem SpellsKey.scan_eq {name key : Text} (h : SpellsKey name key) (rest : Text) :
    ∃ units, StringBody.scan (key ++ '"' :: rest) = ⟨units, .closed rest⟩ ∧
      StringBody.join (.closed rest) none units = .ok name := by
  induction h with
  | nil => exact ⟨[], by rw [List.nil_append, StringBody.scan], rfl⟩
  | @plain c name key hc _ ih =>
    obtain ⟨units, hscan, hjoin⟩ := ih
    refine ⟨.char c :: units, ?_, ?_⟩
    · rw [List.cons_append, StringBody.scan_plain hc, hscan]
      rfl
    · rw [StringBody.join, hjoin]
      rfl
  | @code c ds name key hds hlen _ ih =>
    obtain ⟨units, hscan, hjoin⟩ := ih
    refine ⟨.code c.toNat :: units, ?_, ?_⟩
    · rw [List.cons_append, List.cons_append, List.append_assoc, StringBody.scan_code hds hlen,
        hscan]
      rfl
    · rw [StringBody.join_code, hjoin]
      rfl

/-- A key between its quotation marks. -/
def quoted (key : Text) : Text := '"' :: (key ++ ['"'])

/-- A key is read as the name that it spells, in whatever way. -/
theorem Spaced.key {name key : Text} (hkey : SpellsKey name key) (h : Spaced (quoted key :: ws) t) :
    ∃ body rest, body.text = .ok name ∧ Spaced ws rest ∧
      tokens t = .string body :: tokens rest := by
  obtain ⟨rest, hrest, ht⟩ := h.exists_rest
  obtain ⟨units, hscan, hjoin⟩ := hkey.scan_eq rest
  have htoken : token '"' (key ++ '"' :: rest) =
      (.string ⟨units, .closed rest⟩, some rest) := by
    show stringToken _ = _
    rw [stringToken, hscan]
  refine ⟨⟨units, .closed rest⟩, rest, hjoin, hrest, ht.trans ?_⟩
  rw [quoted, List.cons_append, List.append_assoc]
  exact tokens_cons rfl htoken

/-- The words of a member with some key. -/
def memberWords (key : Text) (bytes : List UInt8) : List Text :=
  quoted key :: [':'] :: arrayWords bytes

theorem Field.ofKey?_name (field : Field) : ofKey? field.name.toList = some field := by
  cases field <;> rfl

/-- A member that is due is taken in. -/
theorem Spaced.member_eq {m : Members} {field : Field} {key : Text} {bytes : List UInt8}
    (hkey : SpellsKey field.name.toList key) (hm : m.get? field = none)
    (h : Spaced (memberWords key bytes ++ ws) t) :
    ∃ body ts rest, tokens t = .string body :: ts ∧ Spaced ws rest ∧
      member m (.string body) ts = .ok (m.set bytes field, tokens rest) := by
  obtain ⟨body, t₁, hbody, h₁, ht₁⟩ := Spaced.key hkey h
  obtain ⟨t₂, h₂, ht₂⟩ := Spaced.mark (k := .colon) rfl (fun _ => rfl) h₁
  obtain ⟨rest, hrest, hstream⟩ := h₂.stream_eq
  refine ⟨body, tokens t₁, rest, ht₁, hrest, ?_⟩
  simp only [member, hbody, Field.ofKey?_name, readField, hm]
  exact bind_eq_ok_iff.mpr ⟨_, congrArg afterColon ht₂, bind_eq_ok_iff.mpr ⟨_, hstream, rfl⟩⟩

theorem members_string {m : Members} {body : StringBody} {ts rest : List Token}
    (h : member {} (.string body) ts = .ok (m, rest)) :
    members (.string body :: ts) = moreMembers m rest := by
  rw [members, h]
  intro hclosing
  cases hclosing

theorem moreMembers_comma {m m' : Members} {body : StringBody} {ts rest : List Token}
    (h : member m (.string body) ts = .ok (m', rest)) :
    moreMembers m (.comma :: .string body :: ts) = moreMembers m' rest := by
  rw [moreMembers]
  · split
    next heq =>
      obtain ⟨rfl, rfl⟩ := Prod.mk.inj (Except.ok.inj (heq.symm.trans h))
      rfl
    next heq => cases heq.symm.trans h
  · intro hclosing
    cases hclosing

/-! ## Both streams -/

/-- The stream that belongs to a part of the image. -/
def Field.stream (s : Streams) : Field → List UInt8
  | .instructions => s.instructions
  | .data => s.data

/-- The words of the JSON texts that hold two streams: an object with both as members, or an array
of both. -/
inductive WordsOf (s : Streams) : List Text → Prop where
  | object {first second : Field} {key key' : Text} (hne : first ≠ second)
      (hkey : SpellsKey first.name.toList key) (hkey' : SpellsKey second.name.toList key') :
      WordsOf s (['\x7b'] :: (memberWords key (first.stream s) ++
        [','] :: (memberWords key' (second.stream s) ++ [['\x7d']])))
  | pair :
      WordsOf s (['['] :: (arrayWords s.instructions ++ [','] :: (arrayWords s.data ++ [[']']])))

namespace Members

/-- Setting one field leaves the other one unset. -/
theorem get?_set_of_ne (stream : List UInt8) : ∀ {first second : Field}, first ≠ second →
    (({} : Members).set stream first).get? second = none
  | .instructions, .data, _ => rfl
  | .data, .instructions, _ => rfl
  | .instructions, .instructions, hne => absurd rfl hne
  | .data, .data, hne => absurd rfl hne

/-- With both fields set, in either order, both streams are there. -/
theorem streams_set (s : Streams) : ∀ {first second : Field}, first ≠ second →
    ((({} : Members).set (first.stream s) first).set (second.stream s) second).streams = .ok s
  | .instructions, .data, _ => rfl
  | .data, .instructions, _ => rfl
  | .instructions, .instructions, hne => absurd rfl hne
  | .data, .data, hne => absurd rfl hne

end Members

variable {s : Streams}

/-- The members of an object can be in either order. -/
theorem Spaced.members_eq {first second : Field} {key key' : Text} (hne : first ≠ second)
    (hkey : SpellsKey first.name.toList key) (hkey' : SpellsKey second.name.toList key')
    (h : Spaced (memberWords key (first.stream s) ++
      [','] :: (memberWords key' (second.stream s) ++ [['\x7d']])) t) :
    ∃ m, members (tokens t) = .ok (m, []) ∧ m.streams = .ok s := by
  obtain ⟨body, ts, t₁, hfirst, h₁, hmember⟩ := h.member_eq hkey (m := {}) (by cases first <;> rfl)
  obtain ⟨t₂, h₂, ht₂⟩ := Spaced.mark (k := .comma) rfl (fun _ => rfl) h₁
  obtain ⟨body', ts', t₃, hsecond, h₃, hmember'⟩ :=
    h₂.member_eq hkey' (Members.get?_set_of_ne _ hne)
  obtain ⟨t₄, h₄, ht₄⟩ := Spaced.mark (k := .closing .object) rfl (fun _ => rfl) h₃
  refine ⟨_, ?_, Members.streams_set s hne⟩
  rw [hfirst, members_string hmember, ht₂, hsecond, moreMembers_comma hmember', ht₄,
    h₄.tokens_eq_nil, moreMembers]

/-- A pair of arrays is read as the two streams, in this order. -/
theorem Spaced.pair_eq
    (h : Spaced (arrayWords s.instructions ++ [','] :: (arrayWords s.data ++ [[']']])) t) :
    pair (tokens t) = .ok (s, []) := by
  obtain ⟨ts, hopening⟩ := h.exists_opening
  obtain ⟨t₁, h₁, hstream⟩ := h.stream_eq
  obtain ⟨t₂, h₂, ht₂⟩ := Spaced.mark (k := .comma) rfl (fun _ => rfl) h₁
  obtain ⟨ts', hopening'⟩ := h₂.exists_opening
  obtain ⟨t₃, h₃, hstream'⟩ := h₂.stream_eq
  obtain ⟨t₄, h₄, ht₄⟩ := Spaced.mark (k := .closing .list) rfl (fun _ => rfl) h₃
  have hsecond : secondStream (tokens t₁) = .ok (tokens t₂) := by
    rw [ht₂, hopening']
    rfl
  have hend : endOfPair (tokens t₃) = .ok [] := by
    rw [ht₄, h₄.tokens_eq_nil]
    rfl
  rw [hopening] at hstream ⊢
  exact bind_eq_ok_iff.mpr ⟨_, hstream, bind_eq_ok_iff.mpr ⟨_, hsecond,
    bind_eq_ok_iff.mpr ⟨_, hstream', bind_eq_ok_iff.mpr ⟨_, hend, rfl⟩⟩⟩⟩

/-- The streams are found, whatever the layout. -/
theorem streams_of_spaced {words : List Text} (hwords : WordsOf s words) (h : Spaced words t) :
    streams t = .ok s := by
  have hstreams : streamsOf (tokens t) = .ok (s, []) := by
    rcases hwords with ⟨hne, hkey, hkey'⟩ | _
    · obtain ⟨rest, hrest, ht⟩ := Spaced.mark (k := .opening .object) rfl (fun _ => rfl) h
      obtain ⟨m, hm, hs⟩ := hrest.members_eq hne hkey hkey'
      rw [ht]
      exact bind_eq_ok_iff.mpr ⟨_, hm, bind_eq_ok_iff.mpr ⟨_, hs, rfl⟩⟩
    · obtain ⟨rest, hrest, ht⟩ := Spaced.mark (k := .opening .list) rfl (fun _ => rfl) h
      rw [ht]
      exact hrest.pair_eq
  rw [streams, hstreams]

end TwinRom.Json

namespace TwinRom.JsonText

open Json

/-- Both ways of writing streams are read, whatever the blanks. -/
theorem read_of_spaced {s : Streams} {words : List Text} {t : Text} (hwords : WordsOf s words)
    (h : Spaced words t) : read t = .ok s := by
  rw [read, streams_of_spaced hwords h]
  rfl

theorem flatten_arrayWords (bytes : List UInt8) : (arrayWords bytes).flatten = array bytes := by
  simp [arrayWords, array, List.intercalate]

theorem flatten_memberWords (field : Field) (bytes : List UInt8) :
    (memberWords field.name.toList bytes).flatten = member field bytes := by
  simp [memberWords, member, quoted, flatten_arrayWords]

theorem spellsKey_name (field : Field) : SpellsKey field.name.toList field.name.toList :=
  .self (by cases field <;> decide)

/-- What is rendered for an image is read back as all its bytes. -/
theorem read_render (x : Image) :
    read (render x) = .ok ⟨x.instructions.toList, x.data.toList⟩ := by
  have hwords := WordsOf.object (s := ⟨x.instructions.toList, x.data.toList⟩) (by decide)
    (spellsKey_name .instructions) (spellsKey_name .data)
  have hrender : render x = (['\x7b'] :: (memberWords Field.instructions.name.toList
      x.instructions.toList ++ [','] :: (memberWords Field.data.name.toList x.data.toList ++
        [['\x7d']]))).flatten ++ ['\n'] := by
    simp [render, flatten_memberWords]
  rw [hrender]
  exact read_of_spaced hwords ((spaced_flatten _).append_blank rfl)

end TwinRom.JsonText
