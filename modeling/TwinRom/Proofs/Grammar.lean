import TwinRom.Source.Line

/-!
# The grammar of lines

A line is described by a grammar of ordered choices: `Rule.body` has its rules, and `Matches` says
what it means to match an expression at a place of the input. Between the parts of a rule gaps are
skipped, a gap being what the rules for white space and comments match. Atomic rules and all that
they refer to skip nothing. Matching an expression has at most one outcome (`Matches.unique`).

A match records which rules matched which texts (`Pair`). The tokens of a line are found in the
record by taking the parts of its instruction and resolving their escapes (`tokens`).
-/

namespace TwinRom.Grammar

/-! ## Expressions and rules -/

/-- The names of the rules. -/
inductive Rule where
  | whitespace
  | comment
  | separator
  | escaped
  | token
  | mnemonic
  | operand
  | instruction
  | line
  | endOfInput
  deriving DecidableEq

/-- What a rule records, and whether gaps are skipped between its parts. -/
inductive Kind where
  /-- Records itself with its parts. -/
  | plain
  /-- Records its parts only. -/
  | silent
  /-- Records itself without its parts, and skips nothing. -/
  | atomic
  /-- Records itself with its parts, and skips nothing. -/
  | compound
  deriving DecidableEq

/-- How the rules around an expression want it to be matched. -/
inductive Mode where
  /-- Gaps are skipped. -/
  | skipping
  /-- Gaps are not skipped. -/
  | compound
  /-- Gaps are not skipped, and nothing is recorded. -/
  | atomic
  deriving DecidableEq

/-- What can be matched. -/
inductive Expr where
  | char (c : Char)
  | any
  | start
  | finish
  | rule (r : Rule)
  /-- A gap, if gaps are skipped here. -/
  | skip
  | andThen (a b : Expr)
  | orElse (a b : Expr)
  | opt (a : Expr)
  | repeated (a : Expr)
  | not (a : Expr)

namespace Expr

/-- Two parts of a rule. -/
def seq (a b : Expr) : Expr := andThen a (andThen skip b)

/-- Any number of one part of a rule. -/
def star (a : Expr) : Expr := opt (andThen a (repeated (andThen skip a)))

/-- One part of a rule, once or more often. -/
def plus (a : Expr) : Expr := seq a (star a)

/-- One of some characters. -/
def oneOf (c : Char) : List Char → Expr
  | [] => char c
  | d :: ds => orElse (char c) (oneOf d ds)

end Expr

namespace Rule

/-- A character of a token, with its escape. -/
def tokenPart : Expr :=
  .orElse (.rule escaped) (.seq (.not (.orElse (.rule separator) (.char '\\'))) .any)

/-- What a rule matches. -/
def body : Rule → Expr
  | whitespace => .oneOf ' ' ['\t', ',']
  | comment => .seq (.char ';') (.star .any)
  | separator => .oneOf ' ' ['\t', ',', ';']
  | escaped => .seq (.char '\\') .any
  | token => .plus tokenPart
  | mnemonic => .rule token
  | operand => .rule token
  | instruction => .seq (.rule mnemonic) (.star (.rule operand))
  | line => .seq .start (.seq (.opt (.rule instruction)) (.rule endOfInput))
  | endOfInput => .finish

/-- The kind of a rule. -/
def kind : Rule → Kind
  | whitespace | comment | separator | escaped => .silent
  | token => .atomic
  | mnemonic | operand => .compound
  | instruction | line | endOfInput => .plain

/-- How the body of a rule is matched. There are no gaps within a gap. -/
def mode (r : Rule) (m : Mode) : Mode :=
  match r with
  | whitespace | comment => .atomic
  | r =>
    match r.kind with
    | .atomic => .atomic
    | .compound => .compound
    | .plain | .silent => m

end Rule

/-- What is matched where gaps are skipped. -/
def gap : Expr :=
  .andThen (.repeated (.rule .whitespace))
    (.repeated (.andThen (.rule .comment) (.repeated (.rule .whitespace))))

/-! ## Matching -/

/-- A rule with the text that it matched and what was recorded within. -/
structure Pair where
  rule : Rule
  text : Text
  inner : List Pair

/-- What a rule adds to the record. -/
def Rule.record (r : Rule) (m : Mode) (text : Text) (inner : List Pair) : List Pair :=
  match r.kind with
  | .silent => inner
  | .compound => [⟨r, text, inner⟩]
  | .plain | .atomic => if m = .atomic then inner else [⟨r, text, inner⟩]

/-- The front part of `t` that is missing in its rest `u`. -/
def consumed (t u : Text) : Text := t.take (t.length - u.length)

@[simp] theorem consumed_append (s u : Text) : consumed (s ++ u) u = s := by
  simp [consumed]

/-- Matching an expression at a place of the input. The text is what is left of the input there. The
outcome is what was recorded and what is left behind the match, or that there is no match. -/
inductive Matches (input : Text) : Mode → Expr → Text → Option (List Pair × Text) → Prop where
  | char {m c t} : Matches input m (.char c) (c :: t) (some ([], t))
  | char_ne {m c d t} (h : d ≠ c) : Matches input m (.char c) (d :: t) none
  | char_nil {m c} : Matches input m (.char c) [] none
  | any {m c t} : Matches input m .any (c :: t) (some ([], t))
  | any_nil {m} : Matches input m .any [] none
  | start {m} : Matches input m .start input (some ([], input))
  | start_ne {m t} (h : t ≠ input) : Matches input m .start t none
  | finish {m} : Matches input m .finish [] (some ([], []))
  | finish_cons {m c t} : Matches input m .finish (c :: t) none
  | rule {m r t ps u} (h : Matches input (r.mode m) r.body t (some (ps, u))) :
      Matches input m (.rule r) t (some (r.record m (consumed t u) ps, u))
  | rule_none {m r t} (h : Matches input (r.mode m) r.body t none) :
      Matches input m (.rule r) t none
  | skip {t ps u} (h : Matches input .atomic gap t (some (ps, u))) :
      Matches input .skipping .skip t (some ([], u))
  | skip_nothing {m t} (h : m ≠ .skipping) : Matches input m .skip t (some ([], t))
  | andThen {m a b t ps u qs v} (ha : Matches input m a t (some (ps, u)))
      (hb : Matches input m b u (some (qs, v))) :
      Matches input m (.andThen a b) t (some (ps ++ qs, v))
  | andThen_none_left {m a b t} (ha : Matches input m a t none) :
      Matches input m (.andThen a b) t none
  | andThen_none_right {m a b t ps u} (ha : Matches input m a t (some (ps, u)))
      (hb : Matches input m b u none) : Matches input m (.andThen a b) t none
  | orElse_left {m a b t p} (ha : Matches input m a t (some p)) :
      Matches input m (.orElse a b) t (some p)
  | orElse_right {m a b t o} (ha : Matches input m a t none) (hb : Matches input m b t o) :
      Matches input m (.orElse a b) t o
  | opt {m a t p} (ha : Matches input m a t (some p)) : Matches input m (.opt a) t (some p)
  | opt_none {m a t} (ha : Matches input m a t none) : Matches input m (.opt a) t (some ([], t))
  | repeated_next {m a t ps u qs v} (ha : Matches input m a t (some (ps, u)))
      (h : Matches input m (.repeated a) u (some (qs, v))) :
      Matches input m (.repeated a) t (some (ps ++ qs, v))
  | repeated_stop {m a t} (ha : Matches input m a t none) :
      Matches input m (.repeated a) t (some ([], t))
  | not {m a t} (ha : Matches input m a t none) : Matches input m (.not a) t (some ([], t))
  | not_none {m a t p} (ha : Matches input m a t (some p)) : Matches input m (.not a) t none

variable {input : Text} {m : Mode} {a : Expr} {t : Text} {o o' : Option (List Pair × Text)}

/-- Matching an expression has at most one outcome. -/
theorem Matches.unique (h : Matches input m a t o) (h' : Matches input m a t o') : o = o' := by
  induction h generalizing o' with
  | char =>
    cases h' with
    | char => rfl
    | char_ne hne => exact absurd rfl hne
  | char_ne hne =>
    cases h' with
    | char => exact absurd rfl hne
    | char_ne => rfl
  | char_nil | any | any_nil | finish | finish_cons =>
    cases h'
    rfl
  | start =>
    cases h' with
    | start => rfl
    | start_ne hne => exact absurd rfl hne
  | start_ne hne =>
    cases h' with
    | start => exact absurd rfl hne
    | start_ne => rfl
  | rule _ ih =>
    cases h' with
    | rule h' =>
      cases ih h'
      rfl
    | rule_none h' => cases ih h'
  | rule_none _ ih =>
    cases h' with
    | rule h' => cases ih h'
    | rule_none => rfl
  | skip _ ih =>
    cases h' with
    | skip h' =>
      cases ih h'
      rfl
    | skip_nothing hm => exact absurd rfl hm
  | skip_nothing hm =>
    cases h' with
    | skip => exact absurd rfl hm
    | skip_nothing => rfl
  | andThen _ _ iha ihb =>
    cases h' with
    | andThen ha hb =>
      cases iha ha
      cases ihb hb
      rfl
    | andThen_none_left ha => cases iha ha
    | andThen_none_right ha hb =>
      cases iha ha
      cases ihb hb
  | andThen_none_left _ iha =>
    cases h' with
    | andThen ha => cases iha ha
    | andThen_none_left => rfl
    | andThen_none_right => rfl
  | andThen_none_right _ _ iha ihb =>
    cases h' with
    | andThen ha hb =>
      cases iha ha
      cases ihb hb
    | andThen_none_left => rfl
    | andThen_none_right => rfl
  | orElse_left _ iha =>
    cases h' with
    | orElse_left ha => exact iha ha
    | orElse_right ha => cases iha ha
  | orElse_right _ _ iha ihb =>
    cases h' with
    | orElse_left ha => cases iha ha
    | orElse_right _ hb => exact ihb hb
  | opt _ iha =>
    cases h' with
    | opt ha => exact iha ha
    | opt_none ha => cases iha ha
  | opt_none _ iha =>
    cases h' with
    | opt ha => cases iha ha
    | opt_none => rfl
  | repeated_next _ _ iha ih =>
    cases h' with
    | repeated_next ha h =>
      cases iha ha
      cases ih h
      rfl
    | repeated_stop ha => cases iha ha
  | repeated_stop _ iha =>
    cases h' with
    | repeated_next ha => cases iha ha
    | repeated_stop => rfl
  | not _ iha =>
    cases h' with
    | not => rfl
    | not_none ha => cases iha ha
  | not_none _ iha =>
    cases h' with
    | not ha => cases iha ha
    | not_none => rfl

/-! ## Reading a match -/

mutual

/-- A pair and all those within, from left to right. -/
def Pair.flatten : Pair → List Pair
  | ⟨r, t, inner⟩ => ⟨r, t, inner⟩ :: flattenAll inner

/-- Some pairs and all those within. -/
def flattenAll : List Pair → List Pair
  | [] => []
  | p :: ps => p.flatten ++ flattenAll ps

end

/-- A text with its escapes resolved. -/
def unescape : Text → Text
  | [] => []
  | '\\' :: c :: t => c :: unescape t
  | c :: t => c :: unescape t

/-- The tokens of a line: the parts of its instruction, if it has one. -/
def tokens (pairs : List Pair) : List Text :=
  match (flattenAll pairs).find? fun p => p.rule = .instruction with
  | some p => p.inner.map fun q => unescape q.text
  | none => []

end TwinRom.Grammar
