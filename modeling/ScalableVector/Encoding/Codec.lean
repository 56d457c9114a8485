import ScalableVector.Encoding.Rejection
import ScalableVector.Number.Binary64

/-!
# Codes of immediates

A shift by an immediate is encoded together with the element size, in the fields `tszh`, `tszl` and
`imm3`. How much of the amount each of them takes depends on the element size. A widening shift has
the bits of its fields in one number, with a mark for the size of the sources.

The 8-bit floating-point immediate `a b cd efgh` stands for the value
`(-1)^a * (16 + efgh) / 16 * 2^e`, where `e` is `cd + 1` if `b` is clear and `cd - 3` if it is set.
-/

namespace ScalableVector

abbrev Word := BitVec 32

namespace Shift

def sizeFault (size : ElementSize) (allowed : ElementSizes) : Option Cause :=
  if size ∈ allowed then none else some (.elementSize size allowed)

def boundsFault (what : String) (value lo hi : Int) : Option Cause :=
  if lo ≤ value ∧ value ≤ hi then none else some (.bounds what value lo hi)

def amounts (direction : ShiftDirection) (width : Nat) : Int × Int :=
  match direction with
  | .left => (0, width - 1)
  | .right => (1, width)

def amountFault (direction : ShiftDirection) (width : Nat) (amount : Int) : Option Cause :=
  boundsFault (direction.text ++ " shift") amount (amounts direction width).1
    (amounts direction width).2

def fault (direction : ShiftDirection) (size : ElementSize) (amount : Int) : Option Cause :=
  (sizeFault size .plain).or (amountFault direction size.bits amount)

/-- The fields that hold the element size and the amount of a shift. -/
structure Fields where
  tszh : Word
  tszl : Word
  imm3 : Word

inductive Part
  | tszh
  | tszl
  | imm3
  deriving DecidableEq

def Fields.get (f : Fields) : Part → Word
  | .tszh => f.tszh
  | .tszl => f.tszl
  | .imm3 => f.imm3

def Fields.value (f : Fields) : Word := f.tszh <<< 5 ||| f.tszl <<< 3 ||| f.imm3

def inverse (direction : ShiftDirection) (size : ElementSize) (amount : Word) : Word :=
  match direction with
  | .left => amount
  | .right => BitVec.ofNat 32 (2 * size.bits) - amount

/-- The fields of an accepted shift. The larger the elements, the more bits of the amount stand in
`tszl` and `tszh`, below the bit that tells the size. -/
def split (direction : ShiftDirection) (size : ElementSize) (amount : Word) : Fields :=
  let n := inverse direction size amount
  if size = .byte then ⟨0, 0b01, n &&& 0b111⟩
  else if size = .half then ⟨0, (0b10 : Word) ||| (n >>> 3 &&& 0b1), n &&& 0b111⟩
  else if size = .single then ⟨0b01, n >>> 3 &&& 0b11, n &&& 0b111⟩
  else if size = .double then
    ⟨(0b10 : Word) ||| (n >>> 5 &&& 0b1), n >>> 3 &&& 0b11, n &&& 0b111⟩
  else ⟨0, 0, n &&& 0b111⟩

/-- The width of the elements that a widening instruction reads, which is that of the next smaller
size. -/
def sourceWidth (size : ElementSize) : Nat := (ElementSize.mk (size.code - 1)).bits

def longFault (size : ElementSize) (amount : Int) : Option Cause :=
  (sizeFault size .wide).or (amountFault .left (sourceWidth size) amount)

/-- The bit of a widening shift that tells the size of the sources. -/
def marker (size : ElementSize) : Word :=
  if size = .double then (1 : Word) <<< 22 else ((1 : Word) <<< 19) <<< (size.code.toNat - 1)

def longBits (size : ElementSize) (amount : Word) : Word := marker size ||| amount <<< 16

end Shift

namespace FloatImmediate

open Number

def exponent (n : Nat) : Int :=
  let cd : Int := (n / 16 % 4 : Nat)
  if n.testBit 6 then cd - 3 else cd + 1

/-- The value of an immediate; only the low eight bits count. -/
def decode (n : UInt32) : Binary64 :=
  Binary64.ofMagnitude (n.toNat.testBit 7)
    (((exponent n.toNat + 1023).toNat <<< 52) + ((n.toNat % 16) <<< 48))

def encode? (x : Binary64) : Option Nat :=
  (List.range 256).find? fun n => decode (UInt32.ofNat n) = x

end FloatImmediate

end ScalableVector
