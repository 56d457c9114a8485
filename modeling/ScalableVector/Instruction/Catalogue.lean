import ScalableVector.Instruction.Comparison
import ScalableVector.Instruction.Constant
import ScalableVector.Instruction.Mask
import ScalableVector.Instruction.Permutation
import ScalableVector.Instruction.Predicated
import ScalableVector.Instruction.ShiftImmediate
import ScalableVector.Instruction.Transfer
import ScalableVector.Instruction.Unpredicated

/-!
# The catalogue

All instructions, and the search for one by its name.
-/

namespace ScalableVector.Catalogue

def families : List Family :=
  Unpredicated.families ++ Predicated.families ++ Comparison.families ++ Permutation.families ++
    ShiftImmediate.families ++ Mask.families ++ Constant.families ++ Transfer.families

def instructions : List Instruction :=
  families.flatMap Family.instructions ++ IndexedProduct.instruction ::
    Transfer.accesses.flatMap Transfer.Access.instructions

def find? (name : String) : Option Instruction := instructions.find? fun i => i.name = name

def lowered : List (Bytes × Instruction) :=
  instructions.map fun i => (Text.lower (Bytes.ofString i.name), i)

/-- The instruction whose name in lower case is the given one. -/
def findLowered? (name : Bytes) : Option Instruction :=
  (lowered.find? fun entry => entry.1 = name).map Prod.snd

end ScalableVector.Catalogue
