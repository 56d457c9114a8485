/-!
# Double-precision numbers

The 64-bit floating-point format: one sign bit, eleven exponent bits and 52 fraction bits. A
magnitude is a significand times a power of two. `nearest?` rounds a quotient to the nearest number
of the format, a tie to the even significand.
-/

namespace ScalableVector.Number

/-- A double-precision number, given by its bits. -/
structure Binary64 where
  bits : UInt64
  deriving DecidableEq, Repr

namespace Binary64

def isNegative (x : Binary64) : Bool := x.bits.toNat.testBit 63

def exponentBits (x : Binary64) : Nat := (x.bits.toNat >>> 52) % 2048

def fraction (x : Binary64) : Nat := x.bits.toNat % (1 <<< 52)

def isNaN (x : Binary64) : Bool := x.exponentBits = 2047 ∧ x.fraction ≠ 0

def isInfinite (x : Binary64) : Bool := x.exponentBits = 2047 ∧ x.fraction = 0

def isZero (x : Binary64) : Bool := x.exponentBits = 0 ∧ x.fraction = 0

def significand (x : Binary64) : Nat :=
  if x.exponentBits = 0 then x.fraction else (1 <<< 52) + x.fraction

def scale (x : Binary64) : Int :=
  if x.exponentBits = 0 then -1074 else x.exponentBits - 1075

def ofMagnitude (negative : Bool) (magnitude : Nat) : Binary64 :=
  ⟨UInt64.ofNat (magnitude + if negative then 1 <<< 63 else 0)⟩

def infinityBits : Nat := 2047 <<< 52

def infinity (negative : Bool) : Binary64 := ofMagnitude negative infinityBits

def notANumber : Binary64 := ⟨0x7FF8000000000001⟩

/-- The quotient of natural numbers, rounded to the nearest one, a tie to the even one. -/
def roundQuotient (num den : Nat) : Nat :=
  let q := num / den
  let r := num % den
  if den < 2 * r ∨ (den = 2 * r ∧ q % 2 = 1) then q + 1 else q

/-- The greatest `e` with `2 ^ e ≤ num / den`, for positive numbers. -/
def floorLog (num den : Nat) : Int :=
  let e : Int := (num.log2 : Int) - den.log2
  if den <<< e.toNat ≤ num <<< (-e).toNat then e else e - 1

def lastPlace (num den : Nat) : Int := max (floorLog num den - 52) (-1074)

/-- The bits of the magnitude nearest to `num / den`; they may lie beyond those of infinity. A
carry of the significand moves on into the exponent bits. -/
def nearestBits (num den : Nat) : Nat :=
  if num = 0 then 0
  else
    let e := lastPlace num den
    ((e + 1074).toNat <<< 52) + roundQuotient (num <<< (-e).toNat) (den <<< e.toNat)

def nearest? (negative : Bool) (num den : Nat) : Option Binary64 :=
  let bits := nearestBits num den
  if infinityBits ≤ bits then none else some (ofMagnitude negative bits)

end Binary64

end ScalableVector.Number
