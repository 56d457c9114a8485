import ScalableVector.Text.Basic

/-!
# Registers

Vector, predicate, scalar and general registers. A register is a byte as the caller gives it; a
number beyond its register file is refused when an instruction is encoded.
-/

namespace ScalableVector

structure VectorRegister where
  number : UInt8
  deriving DecidableEq, Repr

def VectorRegister.text (z : VectorRegister) : String := "z" ++ Text.decimal z.number.toNat

/-- The register that follows in a list of registers; `z0` follows `z31`. -/
def VectorRegister.next (z : VectorRegister) : VectorRegister := ⟨(z.number + 1) &&& 31⟩

def VectorRegister.sequential : List VectorRegister → Bool
  | a :: b :: rest => a.next = b && sequential (b :: rest)
  | _ => true

structure ScalarRegister where
  number : UInt8
  deriving DecidableEq, Repr

def ScalarRegister.text (v : ScalarRegister) : String := "v" ++ Text.decimal v.number.toNat

/-- What happens to the lanes that a predicate leaves out: nothing is said, they are kept
(merging), or they become zero (zeroing). -/
inductive Predication
  | plain
  | merging
  | zeroing
  deriving DecidableEq, Repr

def Predication.qualifier : Predication → String
  | .plain => ""
  | .merging => "/m"
  | .zeroing => "/z"

structure PredicateRegister where
  number : UInt8
  deriving DecidableEq, Repr

def PredicateRegister.text (p : PredicateRegister) (view : Predication) : String :=
  "p" ++ Text.decimal p.number.toNat ++ view.qualifier

/-- A general register: codes below 32 are the 64-bit views, 32 to 63 the 32-bit views of the same
registers. Number 31 is the zero register or the stack pointer. -/
structure GeneralRegister where
  code : UInt8
  deriving DecidableEq, Repr

namespace GeneralRegister

def xzr : GeneralRegister := ⟨31⟩

def wzr : GeneralRegister := ⟨63⟩

def x (n : UInt32) : GeneralRegister := ⟨(n &&& 31).toUInt8⟩

def w (n : UInt32) : GeneralRegister := ⟨32 + (n &&& 31).toUInt8⟩

def isValid (r : GeneralRegister) : Bool := r.code < 64

def index (r : GeneralRegister) : UInt8 := r.code &&& 31

def is64 (r : GeneralRegister) : Bool := r.code < 32

def text (r : GeneralRegister) : String :=
  if !r.isValid then "Register(" ++ Text.decimal r.code.toNat ++ ")"
  else if r = xzr then "xzr"
  else if r = wzr then "wzr"
  else (if r.is64 then "x" else "w") ++ Text.decimal r.index.toNat

end GeneralRegister

/-!
## Addresses

The memory operand of contiguous loads and stores: a base with an offset. Which fields count
depends on the addressing mode.
-/

structure AddressMode where
  code : UInt8
  deriving DecidableEq, Repr

namespace AddressMode

def scalarScalar : AddressMode := ⟨0⟩
def scalarImmediate : AddressMode := ⟨1⟩
def scalarVector : AddressMode := ⟨2⟩
def vectorImmediate : AddressMode := ⟨3⟩

def names : List (AddressMode × String) :=
  [(scalarScalar, "scalar-plus-scalar"), (scalarImmediate, "scalar-plus-immediate"),
    (scalarVector, "scalar-plus-vector"), (vectorImmediate, "vector-plus-immediate")]

def text (m : AddressMode) : String :=
  (names.lookup m).getD ("MemoryOperandKind(" ++ Text.decimal m.code.toNat ++ ")")

end AddressMode

structure Address where
  mode : AddressMode := AddressMode.scalarScalar
  base : GeneralRegister := ⟨0⟩
  offset : GeneralRegister := ⟨0⟩
  vectorBase : VectorRegister := ⟨0⟩
  vectorOffset : VectorRegister := ⟨0⟩
  immediate : Int32 := 0
  deriving DecidableEq

namespace Address

def ofScalar (base offset : GeneralRegister) : Address := { base, offset }

def ofImmediate (base : GeneralRegister) (immediate : Int32) : Address :=
  { mode := .scalarImmediate, base, immediate }

def ofVectorOffset (base : GeneralRegister) (vectorOffset : VectorRegister) : Address :=
  { mode := .scalarVector, base, vectorOffset }

def ofVectorBase (vectorBase : VectorRegister) (immediate : Int32) : Address :=
  { mode := .vectorImmediate, vectorBase, immediate }

def text (a : Address) : String :=
  if a.mode = .scalarScalar then "[" ++ a.base.text ++ ", " ++ a.offset.text ++ "]"
  else if a.mode = .scalarImmediate then
    "[" ++ a.base.text ++ ", #" ++ Text.signedDecimal a.immediate.toInt ++ ", mul vl]"
  else if a.mode = .scalarVector then "[" ++ a.base.text ++ ", " ++ a.vectorOffset.text ++ "]"
  else if a.mode = .vectorImmediate then
    "[" ++ a.vectorBase.text ++ ", #" ++ Text.signedDecimal a.immediate.toInt ++ "]"
  else a.mode.text

end Address

end ScalableVector
