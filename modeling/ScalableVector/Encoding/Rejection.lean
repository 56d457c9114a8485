import ScalableVector.Feature
import ScalableVector.Number.Shortest
import ScalableVector.Operand.Basic

/-!
# Rejections

Why an instruction is refused. Every cause belongs to one class, and the message of a rejection is
the instruction, the class and the cause.
-/

namespace ScalableVector

inductive RejectionClass
  | invalidArgument
  | outOfRange
  | notImplemented
  deriving DecidableEq, Repr

def RejectionClass.words : RejectionClass → String
  | .invalidArgument => "invalid argument"
  | .outOfRange => "out of range"
  | .notImplemented => "not implemented"

inductive ShiftDirection
  | left
  | right
  deriving DecidableEq, Repr

def ShiftDirection.text : ShiftDirection → String
  | .left => "left"
  | .right => "right"

inductive Conversion
  | toFloat
  | toInteger
  deriving DecidableEq, Repr

/-- What is wrong with a request. -/
inductive Cause
  | missingFeature (missing enabled : FeatureSet)
  | elementSize (size : ElementSize) (allowed : ElementSizes)
  | registerFile (register : Operand)
  | governing (predicate : Operand)
  | notWide (register : GeneralRegister)
  | zeroOffset
  | widthsDiffer (a b : GeneralRegister)
  | widthMismatch (register : GeneralRegister) (size : ElementSize)
  | notAliased (first : String) (a : Operand) (second : String) (b : Operand)
  | notSequential (registers : List VectorRegister)
  | rotation (r : Rotation)
  | shiftedImmediate (size : ElementSize)
  | conversion (direction : Conversion) (source target : ElementSize)
  | unsupportedMode (mode : AddressMode)
  | invalidMode (mode : AddressMode)
  | bounds (what : String) (value lo hi : Int)
  | notMultiple (what : String) (value factor : Int)
  | floatImmediate (value : Number.Binary64)
  deriving DecidableEq

namespace Cause

def rejectionClass : Cause → RejectionClass
  | bounds .. | notMultiple .. | floatImmediate .. => .outOfRange
  | unsupportedMode .. => .notImplemented
  | _ => .invalidArgument

def registerFileWords : Operand → String
  | .vector z =>
    "vector register index " ++ Text.decimal z.number.toNat ++ " must be within z0-z31"
  | .scalar v =>
    "SIMD&FP register index " ++ Text.decimal v.number.toNat ++ " must be within v0-v31"
  | .predicate _ p =>
    "predicate register index " ++ Text.decimal p.number.toNat ++ " must be within p0-p15"
  | .general r => "invalid general register " ++ r.text
  | _ => ""

def words : Cause → String
  | missingFeature missing enabled =>
    "requires extension " ++ missing.text ++ ", enabled: " ++ enabled.text
  | elementSize size allowed =>
    "element size " ++ size.text ++ " must be one of " ++
      ", ".intercalate (allowed.map ElementSize.text)
  | registerFile register => registerFileWords register
  | governing predicate =>
    "governing predicate " ++ predicate.registerText ++ " must be within p0-p7"
  | notWide register => register.text ++ " must be a 64-bit register"
  | zeroOffset => "offset register must not be xzr"
  | widthsDiffer a b => a.text ++ " and " ++ b.text ++ " must have the same width"
  | widthMismatch register size =>
    register.text ++ " does not match element size " ++ size.text
  | notAliased first a second b =>
    first ++ " (" ++ a.registerText ++ ") and " ++ second ++ " (" ++ b.registerText ++
      ") must be the same register"
  | notSequential registers =>
    "registers \x7b" ++ ", ".intercalate (registers.map VectorRegister.text) ++
      "\x7d must be sequential"
  | rotation r => "rotation " ++ r.text ++ " must be #90 or #270"
  | shiftedImmediate size =>
    "shifted immediate is not allowed for " ++ size.text ++ " elements"
  | conversion .toFloat source target =>
    "cannot convert " ++ source.text ++ " integers to " ++ target.text ++ " floating-point"
  | conversion .toInteger source target =>
    "cannot convert " ++ source.text ++ " floating-point to " ++ target.text ++ " integers"
  | unsupportedMode mode => mode.text ++ " addressing is not supported"
  | invalidMode mode => "invalid memory operand kind " ++ mode.text
  | bounds what value lo hi =>
    what ++ " " ++ Text.signedDecimal value ++ " must be within [" ++ Text.signedDecimal lo ++
      ", " ++ Text.signedDecimal hi ++ "]"
  | notMultiple what value factor =>
    what ++ " " ++ Text.signedDecimal value ++ " must be a multiple of " ++
      Text.signedDecimal factor
  | floatImmediate value =>
    value.text ++ " is not representable as an 8-bit floating-point immediate"

/-- The message of a cause: its class and its words. -/
def message (c : Cause) : String := c.rejectionClass.words ++ ": " ++ c.words

end Cause

structure Rejection where
  mnemonic : String
  cause : Cause
  deriving DecidableEq

def Rejection.message (r : Rejection) : String := r.mnemonic ++ ": " ++ r.cause.message

end ScalableVector
