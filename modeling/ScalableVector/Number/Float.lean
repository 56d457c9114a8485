import ScalableVector.Number.Binary64
import ScalableVector.Number.Integer

/-!
# Floating-point literals

Decimal literals with an optional exponent and hexadecimal literals with a binary exponent, both
with an optional point and underscores between digits; and the words for infinity and for no
number in any case. The value is the number of the format nearest to the literal.
-/

namespace ScalableVector.Number

/-- The digits before an exponent, as far as they are read. -/
structure Mantissa where
  value : Nat
  places : Nat
  hasPoint : Bool
  hasDigits : Bool

def readMantissa (base : Nat) : Mantissa → Bytes → Mantissa × Bytes
  | m, [] => (m, [])
  | m, c :: s =>
    if c == 0x5f then readMantissa base m s
    else if c == 0x2e then
      if m.hasPoint then (m, c :: s) else readMantissa base { m with hasPoint := true } s
    else
      match digitIn? base c with
      | some d =>
        readMantissa base
          { m with
            value := m.value * base + d
            places := if m.hasPoint then m.places + 1 else m.places
            hasDigits := true } s
      | none => (m, c :: s)

/-- Reads the digits of an exponent; from 10000 on further digits are skipped. -/
def readExponent : Nat → Bytes → Nat × Bytes
  | e, [] => (e, [])
  | e, c :: s =>
    if c == 0x5f then readExponent e s
    else if isDigit c then readExponent (if e < 10000 then e * 10 + (c.toNat - 0x30) else e) s
    else (e, c :: s)

def readSignedExponent? (s : Bytes) : Option (Int × Bytes) :=
  match dropSign s with
  | c :: t =>
    if isDigit c then
      let (e, rest) := readExponent 0 (c :: t)
      some (if isNegative s then -(e : Int) else e, rest)
    else none
  | [] => none

/-- A literal's value is `mantissa * radix ^ exponent`. -/
structure Scientific where
  mantissa : Nat
  radix : Nat
  exponent : Int

def readDecimal? (s : Bytes) : Option Scientific := do
  let (m, rest) := readMantissa 10 ⟨0, 0, false, false⟩ s
  guard m.hasDigits
  match rest with
  | [] => some ⟨m.value, 10, -m.places⟩
  | c :: t =>
    guard (isMark 0x65 c)
    let (e, rest) ← readSignedExponent? t
    guard rest.isEmpty
    some ⟨m.value, 10, e - m.places⟩

def readHexadecimal? (s : Bytes) : Option Scientific := do
  let (m, rest) := readMantissa 16 ⟨0, 0, false, false⟩ s
  guard m.hasDigits
  match rest with
  | [] => none
  | c :: t =>
    guard (isMark 0x70 c)
    let (e, rest) ← readSignedExponent? t
    guard rest.isEmpty
    some ⟨m.value, 2, e - 4 * m.places⟩

def readScientific? : Bytes → Option Scientific
  | 0x30 :: c :: d :: s =>
    if isMark 0x78 c then readHexadecimal? (d :: s) else readDecimal? (0x30 :: c :: d :: s)
  | s => readDecimal? s

def Scientific.nearest? (negative : Bool) (x : Scientific) : Option Binary64 :=
  Binary64.nearest? negative (x.mantissa * Nat.pow x.radix x.exponent.toNat)
    (Nat.pow x.radix (-x.exponent).toNat)

def lowerLetters (s : Bytes) : Bytes := s.map fun c => if isLetter c then c ||| 0x20 else c

def wordValue? (s : Bytes) : Option Binary64 :=
  if lowerLetters s = Bytes.ofString "nan" then some Binary64.notANumber
  else if lowerLetters (dropSign s) = Bytes.ofString "inf"
      ∨ lowerLetters (dropSign s) = Bytes.ofString "infinity" then
    some (Binary64.infinity (isNegative s))
  else none

def floatLiteral (s : Bytes) : Except Fault Binary64 :=
  match wordValue? s with
  | some x => .ok x
  | none =>
    match readScientific? (dropSign s) with
    | none => .error .malformed
    | some x =>
      if s.contains 0x5f && !wellSeparated s then .error .malformed
      else
        match x.nearest? (isNegative s) with
        | some y => .ok y
        | none => .error .overflow

def readFloat (s : Bytes) : Except Error Binary64 :=
  (floatLiteral s).mapError fun f => ⟨.float, s, f⟩

end ScalableVector.Number
