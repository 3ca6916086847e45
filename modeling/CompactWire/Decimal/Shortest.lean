/-!
# CompactWire.Decimal.Shortest — the shortest decimal that reads back

A double of 64 bits stands for the reals that round to it: those up to half way to its neighbours, the two ends
included iff its significand is even.  `Window.ofBits` gives these reals as exact fractions over one denominator.

The shortest decimal that reads back is a multiple of the greatest power of ten that has a multiple in the window.  On
that grid the two multiples next to the value are the only ones to try; the nearer one is taken if both lie in the
window, and the upper one if they are equally near.
-/

namespace CompactWire

/-- A decimal: `digits · 10 ^ exponent`. -/
structure Decimal where
  digits : Nat
  exponent : Int
deriving DecidableEq

namespace Decimal

/-- The reals that round to a value, from `low / den` to `high / den`, and the value `mid / den` itself. -/
structure Window where
  low : Nat
  mid : Nat
  high : Nat
  den : Nat
  /-- Whether the ends round to the value, too. -/
  closed : Bool

/-- The window of a positive finite double with the given bits.  Lengths are counted in quarters of the last place: a
neighbour is one place away, or half a place below the least significand of an exponent. -/
def Window.ofBits (bits : Nat) : Window :=
  let exponent := bits / 1 <<< 52
  let fraction := bits % 1 <<< 52
  let significand := if exponent = 0 then fraction else 1 <<< 52 + fraction
  let place := max exponent 1
  let below := if fraction = 0 ∧ 1 < exponent then 1 else 2
  let scale := 1 <<< (place - 1077)
  { low := (4 * significand - below) * scale
    mid := 4 * significand * scale
    high := (4 * significand + 2) * scale
    den := 1 <<< (1077 - place)
    closed := significand % 2 = 0 }

/-- The denominator of a power of ten. -/
def tenBelow (e : Int) : Nat := Nat.pow 10 (-e).toNat

/-- The numerator of a power of ten. -/
def tenAbove (e : Int) : Nat := Nat.pow 10 e.toNat

/-- Whether a decimal lies in a window. -/
def Window.contains (w : Window) (d : Decimal) : Bool :=
  let point := d.digits * tenAbove d.exponent * w.den
  let low := w.low * tenBelow d.exponent
  let high := w.high * tenBelow d.exponent
  if w.closed then low ≤ point && point ≤ high else low < point && point < high

/-- The multiple of `10 ^ e` below or at the value. -/
def Window.floor (w : Window) (e : Int) : Decimal :=
  ⟨w.mid * tenBelow e / (w.den * tenAbove e), e⟩

/-- Whether the value is nearer to `d` than to the next multiple of its power of ten. -/
def Window.nearer (w : Window) (d : Decimal) : Bool :=
  2 * w.mid * tenBelow d.exponent < (2 * d.digits + 1) * tenAbove d.exponent * w.den

/-- The multiple of `10 ^ e` in the window that is nearest to the value. -/
def Window.nearest? (w : Window) (e : Int) : Option Decimal :=
  let lower := w.floor e
  let upper : Decimal := ⟨lower.digits + 1, e⟩
  match w.contains lower, w.contains upper with
  | true, true => some (if w.nearer lower then lower else upper)
  | true, false => some lower
  | false, true => some upper
  | false, false => none

/-- Tries the powers of ten from `10 ^ e` downwards. -/
def Window.search (w : Window) (e : Int) : (grids : Nat) → Decimal
  | 0 => w.floor e
  | grids + 1 =>
    match w.nearest? e with
    | some d => d
    | none => w.search (e - 1) grids

/-- An exponent of ten that no decimal in the window exceeds, at most two above that of the value: `2 ^ b` has at most
`0.30103 · b + 1` digits. -/
def Window.top (w : Window) : Int :=
  ((w.mid.log2 : Int) - w.den.log2 + 2) * 30103 / 100000 + 1

/-- The shortest decimal that reads back as the positive finite double with the given bits.  Seventeen digits always
read back, so twenty grids are enough. -/
def shortest (bits : Nat) : Decimal :=
  let w := Window.ofBits bits
  w.search w.top 20

/-- The digits of a decimal without an exponent. -/
def positional (d : Decimal) : List Char :=
  let digits := Nat.toDigits 10 d.digits
  let places := (-d.exponent).toNat
  if 0 ≤ d.exponent then digits ++ List.replicate d.exponent.toNat '0'
  else if places < digits.length then
    digits.take (digits.length - places) ++ '.' :: digits.drop (digits.length - places)
  else '0' :: '.' :: List.replicate (places - digits.length) '0' ++ digits

end Decimal

end CompactWire
