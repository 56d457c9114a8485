import ScalableVector.Encoding.Check

/-!
# Fields of a word

An instruction word is the union of its opcode and of the contributions of its fields. A field takes
a number from the operands, its code, and shifts it to its place in the word. The number is masked
in few fields only: in all others the checks have to keep it from reaching other bits of the word.
-/

namespace ScalableVector

inductive Code
  | operand (slot : Nat)
  | quotient (slot : Nat) (divisor : Nat)
  | is64 (slot : Nat)
  | select (slots : List Nat) (table : List (List ElementSize × Nat))
  | shift (part : Shift.Part) (direction : ShiftDirection) (element : Nat) (amount : ShiftAmount)
  | longShift (element amount : Nat)
  /-- An element index above a mark for the element size. -/
  | lane (element index : Nat)
  | float (slot : Nat)

def laneBits (size : ElementSize) (index : Word) : Word :=
  index <<< (size.code.toNat + 1) ||| (1 : Word) <<< size.code.toNat

def Code.value (ops : List Operand) : Code → Word
  | .operand slot => BitVec.ofInt 32 (valueAt ops slot)
  | .quotient slot divisor => BitVec.ofInt 32 ((valueAt ops slot).tdiv divisor)
  | .is64 slot => BitVec.ofNat 32 (generalAt ops slot).is64.toNat
  | .select slots table => BitVec.ofNat 32 ((table.lookup (slots.map (elementAt ops))).getD 0)
  | .shift part direction element amount =>
    (Shift.split direction (elementAt ops element)
      (BitVec.ofInt 32 (amount.value ops element))).get part
  | .longShift element amount =>
    Shift.longBits (elementAt ops element) (BitVec.ofInt 32 (valueAt ops amount))
  | .lane element index => laneBits (elementAt ops element) (BitVec.ofInt 32 (valueAt ops index))
  | .float slot => BitVec.ofNat 32 ((FloatImmediate.encode? (floatAt ops slot)).getD 0)

/-- A term of a word: a number without its `start` lowest bits, shifted to the bits from `lsb` on.
Where the number is masked, `kept` bits of it remain. -/
structure Term where
  start : Nat
  kept : Option Nat
  lsb : Nat
  deriving DecidableEq

def Term.place (t : Term) (v : Word) : Word :=
  match t.kept with
  | none => (v >>> t.start) <<< t.lsb
  | some n => (v >>> t.start &&& BitVec.ofNat 32 ((1 <<< n) - 1)) <<< t.lsb

structure Field where
  code : Code
  terms : List Term

namespace Field

def contribution (ops : List Operand) (f : Field) : Word :=
  f.terms.foldr (fun t w => t.place (f.code.value ops) ||| w) 0

def whole (slot lsb : Nat) : Field := ⟨.operand slot, [⟨0, none, lsb⟩]⟩

def low (slot width lsb : Nat) : Field := ⟨.operand slot, [⟨0, some width, lsb⟩]⟩

def register (slot lsb : Nat) : Field := whole slot lsb

def governing (slot : Nat) : Field := register slot 10

def size (slot : Nat) : Field := whole slot 22

end Field

/-- How an instruction is encoded: what has to hold, in the order in which it is checked, the fixed
bits and the fields. -/
structure Encoding where
  checks : List Check
  opcode : Word
  fields : List Field

namespace Encoding

/-- The cause to refuse the operands: that of the first check that fails. -/
def fault (e : Encoding) (ops : List Operand) : Option Cause := e.checks.findSome? (·.fault ops)

def word (e : Encoding) (ops : List Operand) : Word :=
  e.fields.foldr (fun f w => f.contribution ops ||| w) e.opcode

def encode (e : Encoding) (ops : List Operand) : Except Cause Word :=
  match e.fault ops with
  | some c => .error c
  | none => .ok (e.word ops)

end Encoding

end ScalableVector
