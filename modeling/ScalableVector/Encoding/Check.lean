import ScalableVector.Encoding.Codec

/-!
# Checks

The conditions on the operands of an instruction. A check names the slots it looks at; its fault is
the cause to refuse the operands, and there is none if the condition holds.
-/

namespace ScalableVector

def Operand.inFile : Operand → Bool
  | .vector z => z.number < 32
  | .scalar v => v.number < 32
  | .predicate _ p => p.number < 16
  | .general r => r.isValid
  | _ => true

abbrev ConversionTable := List (List ElementSize × Nat)

/-- The amount of a shift is an operand, or it is the width of the elements. -/
inductive ShiftAmount
  | operand (slot : Nat)
  | width
  deriving DecidableEq

def ShiftAmount.value (ops : List Operand) (element : Nat) : ShiftAmount → Int
  | .operand slot => valueAt ops slot
  | .width => (elementAt ops element).bits

/-- A condition on operands, which are named by their slots. -/
inductive Check
  | size (slot : Nat) (allowed : ElementSizes)
  | register (slot : Nat)
  | governing (slot : Nat)
  | wide (slot : Nat)
  | offset (slot : Nat)
  | sameWidth (a b : Nat)
  /-- The register has 64 bits exactly if the elements have. -/
  | elementRegister (element slot : Nat)
  | aliased (first : String) (a : Nat) (second : String) (b : Nat)
  | sequential (slots : List Nat)
  | bounds (what : String) (slot : Nat) (lo hi : Int)
  | multiple (what : String) (slot : Nat) (factor : Int)
  | shift (direction : ShiftDirection) (element : Nat) (amount : ShiftAmount)
  | longShift (element amount : Nat)
  | rotation (slot : Nat)
  /-- The immediate of byte elements is not shifted. -/
  | unshiftedByte (element shifted : Nat)
  | float (slot : Nat)
  | convertible (direction : Conversion) (source target : Nat) (table : ConversionTable)
  /-- The index names an element of the lowest 512 bits. -/
  | lane (element index : Nat)

namespace Check

def registerFault (ops : List Operand) (slot : Nat) : Option Cause :=
  if (operandAt ops slot).inFile then none else some (.registerFile (operandAt ops slot))

def wideFault (ops : List Operand) (slot : Nat) : Option Cause :=
  (registerFault ops slot).or
    (if (generalAt ops slot).is64 then none else some (.notWide (generalAt ops slot)))

def lastLane (size : ElementSize) : Int := (64 >>> size.code.toNat : Nat) - 1

/-- The cause to refuse the operands, if the condition does not hold. -/
def fault (ops : List Operand) : Check → Option Cause
  | size slot allowed => Shift.sizeFault (elementAt ops slot) allowed
  | register slot => registerFault ops slot
  | governing slot =>
    if valueAt ops slot ≤ 7 then none else some (.governing (operandAt ops slot))
  | wide slot => wideFault ops slot
  | offset slot =>
    (wideFault ops slot).or (if generalAt ops slot = .xzr then some .zeroOffset else none)
  | sameWidth a b =>
    if (generalAt ops a).is64 = (generalAt ops b).is64 then none
    else some (.widthsDiffer (generalAt ops a) (generalAt ops b))
  | elementRegister element slot =>
    (registerFault ops slot).or
      (if decide (elementAt ops element = .double) = (generalAt ops slot).is64 then none
      else some (.widthMismatch (generalAt ops slot) (elementAt ops element)))
  | aliased first a second b =>
    if operandAt ops a = operandAt ops b then none
    else some (.notAliased first (operandAt ops a) second (operandAt ops b))
  | sequential slots =>
    if VectorRegister.sequential (slots.map (vectorAt ops)) then none
    else some (.notSequential (slots.map (vectorAt ops)))
  | bounds what slot lo hi => Shift.boundsFault what (valueAt ops slot) lo hi
  | multiple what slot factor =>
    if factor ∣ valueAt ops slot then none
    else some (.notMultiple what (valueAt ops slot) factor)
  | shift direction element amount =>
    Shift.fault direction (elementAt ops element) (amount.value ops element)
  | longShift element amount => Shift.longFault (elementAt ops element) (valueAt ops amount)
  | rotation slot =>
    if rotationAt ops slot ∈ [⟨1⟩, ⟨3⟩] then none else some (.rotation (rotationAt ops slot))
  | unshiftedByte element shifted =>
    if operandAt ops shifted = .flag true ∧ elementAt ops element = .byte then
      some (.shiftedImmediate (elementAt ops element))
    else none
  | float slot =>
    match FloatImmediate.encode? (floatAt ops slot) with
    | some _ => none
    | none => some (.floatImmediate (floatAt ops slot))
  | convertible direction source target table =>
    match table.lookup [elementAt ops source, elementAt ops target] with
    | some _ => none
    | none => some (.conversion direction (elementAt ops source) (elementAt ops target))
  | lane element index =>
    Shift.boundsFault "index" (valueAt ops index) 0 (lastLane (elementAt ops element))

end Check

end ScalableVector
