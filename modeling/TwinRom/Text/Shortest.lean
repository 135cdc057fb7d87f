import TwinRom.Text.Basic

/-!
# Shortest decimals

The shortest decimal that reads back as a given binary number.

A finite number is `m · 2 ^ e`. The decimals that round to it fill an interval around it, whose
ends belong to it exactly if `m` is even. The multiples of `10 ^ p` in the interval are tried for
falling `p`, and the first that is found has the fewest digits; of two, the nearer one is taken,
and of two that are equally near the even one. The arithmetic is exact.

`Text.shortestDecimal` writes numbers from `10 ^ -5` to below `10 ^ 16` without an exponent and
with a decimal point, and all others with an exponent that has a sign.
-/

namespace TwinRom.Text

/-! ## The interval -/

/-- A positive number and the interval of what rounds to it, over one denominator. -/
structure Rounding where
  /-- The number. -/
  value : Nat
  /-- The lower end of the interval. -/
  low : Nat
  /-- The upper end of the interval. -/
  high : Nat
  /-- The common denominator. -/
  scale : Nat
  /-- Whether the ends belong to the interval. -/
  closed : Bool

/-- The interval of the number `m · 2 ^ e`. Below a power of two the numbers lie twice as close,
so the interval reaches only half as far down there. -/
def Rounding.ofBinary (m : Nat) (e : Int) (atPower : Bool) : Rounding :=
  let up := Nat.pow 2 e.toNat
  { value := 4 * m * up
    low := (4 * m - if atPower then 1 else 2) * up
    high := (4 * m + 2) * up
    scale := 4 * Nat.pow 2 (-e).toNat
    closed := m % 2 == 0 }

/-- The leading bit of a significand, which is not stored. -/
def Rounding.hiddenBit : Nat := 4503599627370496

/-- The interval of a finite number, without its sign. -/
def Rounding.ofFloat (x : Float) : Rounding :=
  let bits := x.toBits.toNat
  let fraction := bits % hiddenBit
  let exponent := bits / hiddenBit % 2048
  if exponent = 0 then .ofBinary fraction (-1074) false
  else .ofBinary (fraction + hiddenBit) (Int.ofNat exponent - 1075) (fraction == 0 && 1 < exponent)

/-- Whether `n / d`, a fraction over the common denominator times `d`, lies in the interval. -/
def Rounding.contains (r : Rounding) (n d : Nat) : Bool :=
  if r.closed then decide (r.low * d ≤ n) && decide (n ≤ r.high * d)
  else decide (r.low * d < n) && decide (n < r.high * d)

/-- The multiple of `10 ^ p` in the interval that is nearest to the number, as its factor. Of two
that are equally near the even factor is taken. -/
def Rounding.multiple? (r : Rounding) (p : Int) : Option Nat :=
  let unit := r.scale * Nat.pow 10 p.toNat
  let d := Nat.pow 10 (-p).toNat
  let below := r.value * d / unit
  let above := below + 1
  match r.contains (below * unit) d, r.contains (above * unit) d with
  | true, true =>
    let down := r.value * d - below * unit
    let up := above * unit - r.value * d
    if down < up ∨ down = up ∧ below % 2 = 0 then some below else some above
  | true, false => some below
  | false, true => some above
  | false, false => none

/-- The shortest decimal in the interval, as a factor and a power of ten. -/
def Rounding.shortest (r : Rounding) : Nat × Int :=
  ((List.range 660).findSome? fun i =>
    let p := Int.ofNat 310 - Int.ofNat i
    (r.multiple? p).map fun c => (c, p)).getD (0, 0)

/-! ## The text -/

/-- The number `c · 10 ^ p` without an exponent, with at least one digit on either side of the
decimal point. -/
def positional (c : Nat) (p : Int) : Text :=
  let digits := Nat.toDigits 10 c
  let places := (-p).toNat
  if p ≥ 0 then digits ++ List.replicate p.toNat '0' ++ ['.', '0']
  else
    let padded := digits.leftpad (places + 1) '0'
    padded.take (padded.length - places) ++ '.' :: padded.drop (padded.length - places)

/-- The number `c · 10 ^ p` with an exponent: one digit before the decimal point, the others after
it, and no point if there are no others. -/
def scientific (c : Nat) (p : Int) : Text :=
  let digits := Nat.toDigits 10 c
  let fraction := digits.drop 1
  let exponent := p + fraction.length
  digits.take 1 ++ (if fraction.isEmpty then [] else '.' :: fraction) ++
    'e' :: (if exponent < 0 then '-' else '+') :: Nat.toDigits 10 exponent.natAbs

/-- The number `c · 10 ^ p`, with an exponent if it is below `10 ^ -5` or not below `10 ^ 16`. -/
def decimalText (c : Nat) (p : Int) : Text :=
  let magnitude := p + (Nat.toDigits 10 c).length
  if -5 < magnitude ∧ magnitude ≤ 16 then positional c p else scientific c p

/-- A finite number in the fewest digits that read back as it. -/
def shortestDecimal (x : Float) : Text :=
  let sign := if UInt64.size / 2 ≤ x.toBits.toNat then ['-'] else []
  if x == 0 then sign ++ ['0', '.', '0']
  else
    let (c, p) := (Rounding.ofFloat x).shortest
    sign ++ decimalText c p

end TwinRom.Text
