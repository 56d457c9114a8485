import ScalableVector.Number.Binary64
import ScalableVector.Text.Basic

/-!
# Shortest decimal texts

A finite number is shown with the fewest decimal digits that read back as the same number, and of
those digits with the ones nearest to it. The numbers that read back as `x` are an interval around
`x`; its ends belong to it if the significand of `x` is even. For one digit, then two and so on the
two neighbours of `x` on the grid of that many digits are tried.
-/

namespace ScalableVector.Number

structure Decimal where
  digits : Nat
  exponent : Int
  deriving DecidableEq, Repr

namespace Binary64

/-- The interval that rounds to a positive finite number, in units of a quarter of the last place
of its significand: lower end, the number itself, upper end. -/
def interval (x : Binary64) : Nat × Nat × Nat :=
  let m := x.significand
  (4 * m - (if x.fraction = 0 ∧ 1 < x.exponentBits then 1 else 2), 4 * m, 4 * m + 2)

/-- The least `k` with `x < 10 ^ k`, for a positive finite number. -/
def decimalMagnitude (x : Binary64) : Int :=
  let num := x.significand <<< x.scale.toNat
  let den := 1 <<< (-x.scale).toNat
  let guess := (floorLog num den * 30103).fdiv 100000
  let below (k : Int) : Bool := num * Nat.pow 10 (-k).toNat < den * Nat.pow 10 k.toNat
  if below guess then guess else if below (guess + 1) then guess + 1 else guess + 2

/-- The grid point `d * 10 ^ t` nearest to a positive finite number among its two neighbours, if
one of them reads back as the number. -/
def onGrid? (x : Binary64) (t : Int) : Option Decimal :=
  let (lo, mid, hi) := x.interval
  let quarter := x.scale - 2
  let step := Nat.pow 10 t.toNat <<< (-quarter).toNat
  let unit := Nat.pow 10 (-t).toNat <<< quarter.toNat
  let inside (c : Nat) : Bool :=
    if x.significand % 2 = 0 then lo * unit ≤ c * step ∧ c * step ≤ hi * unit
    else lo * unit < c * step ∧ c * step < hi * unit
  let d := mid * unit / step
  let r := mid * unit % step
  match inside d, inside (d + 1) with
  | true, true =>
    if step < 2 * r ∨ (step = 2 * r ∧ d % 2 = 1) then some ⟨d + 1, t⟩ else some ⟨d, t⟩
  | true, false => some ⟨d, t⟩
  | false, true => some ⟨d + 1, t⟩
  | false, false => none

/-- The shortest decimal that reads back as a positive finite number; seventeen digits do. -/
def shortest (x : Binary64) : Decimal :=
  let k := x.decimalMagnitude
  ((List.range 17).findSome? fun (n : Nat) => x.onGrid? (k - (n + 1))).getD ⟨0, 0⟩

end Binary64

def trimZeros (digits : List Char) : List Char :=
  (digits.reverse.dropWhile (· == '0')).reverse

/-- How a number is laid out: with a power of ten below `least` and from `beyond` on, positionally
in between. -/
structure Layout where
  least : Int
  beyond : Int
  exponentDigits : Nat

def Layout.general : Layout := ⟨-4, 6, 2⟩

def Layout.exponentText (l : Layout) (e : Int) : List Char :=
  'e' :: (if e < 0 then '-' else '+') ::
    Text.padZeros l.exponentDigits (Nat.toDigits 10 e.natAbs)

def pointed : List Char → List Char
  | [] => []
  | [d] => [d]
  | d :: ds => d :: '.' :: ds

def positional (digits : List Char) (point : Int) : List Char :=
  if point ≤ 0 then '0' :: '.' :: (List.replicate (-point).toNat '0' ++ digits)
  else if digits.length ≤ point.toNat then
    digits ++ List.replicate (point.toNat - digits.length) '0'
  else digits.take point.toNat ++ '.' :: digits.drop point.toNat

def Layout.render (l : Layout) (x : Decimal) : List Char :=
  let all := Nat.toDigits 10 x.digits
  let point : Int := all.length + x.exponent
  let digits := trimZeros all
  if point - 1 < l.least ∨ l.beyond ≤ point - 1 then
    pointed digits ++ l.exponentText (point - 1)
  else positional digits point

def Binary64.text (x : Binary64) : String :=
  if x.isNaN then "NaN"
  else if x.isInfinite then if x.isNegative then "-Inf" else "+Inf"
  else
    let magnitude := if x.isZero then ['0'] else Layout.general.render x.shortest
    String.ofList (if x.isNegative then '-' :: magnitude else magnitude)

end ScalableVector.Number
