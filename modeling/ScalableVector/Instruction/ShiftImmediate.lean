import ScalableVector.Instruction.Basic

/-!
# Shifts by an immediate

The word holds element size and amount in the fields `tszh`, `tszl` and `imm3`. The first stands at
bit 22 and the others next to each other.
-/

namespace ScalableVector.ShiftImmediate

/-- The fields of element size and amount, the lowest of them at the given bit. -/
def shiftFields (direction : ShiftDirection) (amount : ShiftAmount) (lsb : Nat) : List Field :=
  [⟨.shift .tszh direction 0 amount, [⟨0, none, 22⟩]⟩,
    ⟨.shift .tszl direction 0 amount, [⟨0, none, lsb + 3⟩]⟩,
    ⟨.shift .imm3 direction 0 amount, [⟨0, none, lsb⟩]⟩]

def plainChecks (direction : ShiftDirection) (amount : ShiftAmount) : List Check :=
  [.shift direction 0 amount, .register 1, .register 2]

def plainFields (direction : ShiftDirection) (amount : ShiftAmount) : List Field :=
  shiftFields direction amount 16 ++ [.register 1 0, .register 2 5]

/-- Bit 1 of the code of a shift under a predicate tells the direction. -/
def directionOf (opc : Word) : ShiftDirection := if opc &&& 0b10 ≠ 0 then .left else .right

def predicated (requirement : FeatureSet) (name mnemonic : String) (opc : Word) : Family where
  signature := [.element, .vector, .merging, .vector, .uint32]
  requirement
  checks := [.shift (directionOf opc) 0 (.operand 4), .register 1, .register 3, .governing 2,
    .aliased "zd" 1 "zdn" 3]
  fields := shiftFields (directionOf opc) (.operand 4) 5 ++ [.register 1 0, .governing 2]
  entries := [⟨name, mnemonic, 0x04008000 ||| opc <<< 16⟩]

def right : Family where
  signature := [.element, .vector, .vector, .uint32]
  requirement := .empty
  checks := plainChecks .right (.operand 3)
  fields := plainFields .right (.operand 3)
  entries := [⟨"AsrImm", "asr", 0x04209000⟩, ⟨"LsrImm", "lsr", 0x04209400⟩]

def left : Family where
  signature := [.element, .vector, .vector, .uint32]
  requirement := .empty
  checks := plainChecks .left (.operand 3)
  fields := plainFields .left (.operand 3)
  entries := [⟨"LslImm", "lsl", 0x04209c00⟩]

def accumulating : Family where
  signature := [.element, .vector, .vector, .uint32]
  requirement := .sve2
  checks := plainChecks .right (.operand 3)
  fields := plainFields .right (.operand 3)
  entries := [⟨"Ssra", "ssra", 0x4500e000⟩, ⟨"Usra", "usra", 0x4500e400⟩,
    ⟨"Srsra", "srsra", 0x4500e800⟩, ⟨"Ursra", "ursra", 0x4500ec00⟩, ⟨"Sri", "sri", 0x4500f000⟩]

def inserting : Family where
  signature := [.element, .vector, .vector, .uint32]
  requirement := .sve2
  checks := plainChecks .left (.operand 3)
  fields := plainFields .left (.operand 3)
  entries := [⟨"Sli", "sli", 0x4500f400⟩]

/-- Right shifts that narrow their source. The size is that of the destination. -/
def narrowing : Family where
  signature := [.element, .vector, .vector, .uint32]
  requirement := .sve2
  checks := .size 0 .narrow :: plainChecks .right (.operand 3)
  fields := plainFields .right (.operand 3)
  entries := [⟨"Sqshrunb", "sqshrunb", 0x45200000⟩, ⟨"Sqshrunt", "sqshrunt", 0x45200400⟩,
    ⟨"Sqrshrunb", "sqrshrunb", 0x45200800⟩, ⟨"Sqrshrunt", "sqrshrunt", 0x45200c00⟩,
    ⟨"Shrnb", "shrnb", 0x45201000⟩, ⟨"Shrnt", "shrnt", 0x45201400⟩,
    ⟨"Rshrnb", "rshrnb", 0x45201800⟩, ⟨"Rshrnt", "rshrnt", 0x45201c00⟩,
    ⟨"Sqshrnb", "sqshrnb", 0x45202000⟩, ⟨"Sqshrnt", "sqshrnt", 0x45202400⟩,
    ⟨"Sqrshrnb", "sqrshrnb", 0x45202800⟩, ⟨"Sqrshrnt", "sqrshrnt", 0x45202c00⟩,
    ⟨"Uqshrnb", "uqshrnb", 0x45203000⟩, ⟨"Uqshrnt", "uqshrnt", 0x45203400⟩,
    ⟨"Uqrshrnb", "uqrshrnb", 0x45203800⟩, ⟨"Uqrshrnt", "uqrshrnt", 0x45203c00⟩]

/-- Narrowing without an amount, encoded as a right shift by the whole width. -/
def extracting : Family where
  signature := [.element, .vector, .vector]
  requirement := .sve2
  checks := .size 0 .narrow :: plainChecks .right .width
  fields := plainFields .right .width
  entries := [⟨"Sqxtnb", "sqxtnb", 0x45204000⟩, ⟨"Sqxtnt", "sqxtnt", 0x45204400⟩,
    ⟨"Uqxtnb", "uqxtnb", 0x45204800⟩, ⟨"Uqxtnt", "uqxtnt", 0x45204c00⟩,
    ⟨"Sqxtunb", "sqxtunb", 0x45205000⟩, ⟨"Sqxtunt", "sqxtunt", 0x45205400⟩]

/-- Left shifts that widen their source. The size is that of the destination. -/
def widening : Family where
  signature := [.element, .vector, .vector, .uint32]
  requirement := .sve2
  checks := [.longShift 0 3, .register 1, .register 2]
  fields := [⟨.longShift 0 3, [⟨0, none, 0⟩]⟩, .register 1 0, .register 2 5]
  entries := [⟨"Sshllb", "sshllb", 0x4500a000⟩, ⟨"Sshllt", "sshllt", 0x4500a400⟩,
    ⟨"Ushllb", "ushllb", 0x4500a800⟩, ⟨"Ushllt", "ushllt", 0x4500ac00⟩]

def families : List Family :=
  [right, left, accumulating, inserting, narrowing, extracting, widening,
    predicated .empty "AsrImmPred" "asr" 0b0000, predicated .empty "LsrImmPred" "lsr" 0b0001,
    predicated .empty "LslImmPred" "lsl" 0b0011, predicated .empty "Asrd" "asrd" 0b0100,
    predicated .sve2 "Sqshl" "sqshl" 0b0110, predicated .sve2 "Uqshl" "uqshl" 0b0111,
    predicated .sve2 "Srshr" "srshr" 0b1100, predicated .sve2 "Urshr" "urshr" 0b1101,
    predicated .sve2 "Sqshlu" "sqshlu" 0b1111]

end ScalableVector.ShiftImmediate
