import ScalableVector.Number.Binary64
import ScalableVector.Operand.Element
import ScalableVector.Operand.Register

/-!
# Operands

The operands of instructions and their kinds. An operand holds a raw value: nothing is checked
before an instruction is encoded.
-/

namespace ScalableVector

inductive OperandKind
  | element
  | vector
  | predicate (view : Predication)
  | scalar
  | general
  | rotation
  | pattern
  | form
  | address
  | int32
  | int64
  | uint32
  | float
  | flag
  deriving DecidableEq, Repr

inductive Operand
  | element (size : ElementSize)
  | vector (z : VectorRegister)
  | predicate (view : Predication) (p : PredicateRegister)
  | scalar (v : ScalarRegister)
  | general (r : GeneralRegister)
  | rotation (r : Rotation)
  | pattern (p : Pattern)
  | form (f : Form)
  | address (a : Address)
  | int32 (i : Int32)
  | int64 (i : Int64)
  | uint32 (n : UInt32)
  | float (x : Number.Binary64)
  | flag (b : Bool)
  deriving DecidableEq

namespace Operand

def kind : Operand → OperandKind
  | element _ => .element
  | vector _ => .vector
  | predicate view _ => .predicate view
  | scalar _ => .scalar
  | general _ => .general
  | rotation _ => .rotation
  | pattern _ => .pattern
  | form _ => .form
  | address _ => .address
  | int32 _ => .int32
  | int64 _ => .int64
  | uint32 _ => .uint32
  | float _ => .float
  | flag _ => .flag

/-- The number an operand stands for where bounds are checked and fields are filled. A general
register counts by its number within its width. -/
def value : Operand → Int
  | element s => s.code.toNat
  | vector z => z.number.toNat
  | predicate _ p => p.number.toNat
  | scalar v => v.number.toNat
  | general r => r.index.toNat
  | rotation r => r.quarters.toNat
  | pattern p => p.code.toNat
  | form f => f.code.toNat
  | address _ => 0
  | int32 i => i.toInt
  | int64 i => i.toInt
  | uint32 n => n.toNat
  | float _ => 0
  | flag b => b.toNat

def registerText : Operand → String
  | vector z => z.text
  | predicate view p => p.text view
  | scalar v => v.text
  | general r => r.text
  | _ => ""

end Operand

/-- The operand in a slot of a list, the first slot being zero. -/
def operandAt (ops : List Operand) (slot : Nat) : Operand := ops.getD slot (.flag false)

def elementAt (ops : List Operand) (slot : Nat) : ElementSize :=
  match operandAt ops slot with
  | .element s => s
  | _ => ⟨0⟩

def generalAt (ops : List Operand) (slot : Nat) : GeneralRegister :=
  match operandAt ops slot with
  | .general r => r
  | _ => ⟨0⟩

def vectorAt (ops : List Operand) (slot : Nat) : VectorRegister :=
  match operandAt ops slot with
  | .vector z => z
  | _ => ⟨0⟩

def rotationAt (ops : List Operand) (slot : Nat) : Rotation :=
  match operandAt ops slot with
  | .rotation r => r
  | _ => ⟨0⟩

def floatAt (ops : List Operand) (slot : Nat) : Number.Binary64 :=
  match operandAt ops slot with
  | .float x => x
  | _ => ⟨0⟩

def addressAt (ops : List Operand) (slot : Nat) : Address :=
  match operandAt ops slot with
  | .address a => a
  | _ => {}

def valueAt (ops : List Operand) (slot : Nat) : Int := (operandAt ops slot).value

end ScalableVector
