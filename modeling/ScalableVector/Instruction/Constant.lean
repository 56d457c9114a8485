import ScalableVector.Instruction.Basic

/-!
# Constants and sequences

Instructions that fill a vector from immediates or general registers, and multiples of the vector
length.
-/

namespace ScalableVector.Constant

def sequenceFields : List Field := [.size 0, .register 1 0, .low 2 5 5, .low 3 5 16]

/-- The broadcast of an integer, which may be shifted by eight bits. -/
def immediate : Family where
  signature := [.element, .vector, .int32, .flag]
  requirement := .empty
  checks := [.size 0 .plain, .register 1, .unshiftedByte 0 3, .bounds "immediate" 2 (-128) 127]
  fields := [.size 0, .register 1 0, .low 2 8 5, .whole 3 13]
  entries := [⟨"DupImm", "dup", 0x2538c000⟩, ⟨"MovImm", "dup", 0x2538c000⟩]

def float : Family where
  signature := [.element, .vector, .float]
  requirement := .empty
  checks := [.size 0 .floating, .register 1, .float 2]
  fields := [.size 0, .register 1 0, ⟨.float 2, [⟨0, none, 5⟩]⟩]
  entries := [⟨"Fdup", "fdup", 0x2539c000⟩, ⟨"Fmov", "fdup", 0x2539c000⟩]

def sequence : Family where
  signature := [.element, .vector, .int32, .int32]
  requirement := .empty
  checks := [.bounds "start" 2 (-16) 15, .bounds "increment" 3 (-16) 15, .size 0 .plain,
    .register 1]
  fields := sequenceFields
  entries := [⟨"Index", "index", 0x04204000⟩]

def sequenceFrom : Family where
  signature := [.element, .vector, .general, .int32]
  requirement := .empty
  checks := [.elementRegister 0 2, .bounds "increment" 3 (-16) 15, .size 0 .plain, .register 1]
  fields := sequenceFields
  entries := [⟨"IndexRegImm", "index", 0x04204400⟩]

def sequenceBy : Family where
  signature := [.element, .vector, .int32, .general]
  requirement := .empty
  checks := [.bounds "start" 2 (-16) 15, .elementRegister 0 3, .size 0 .plain, .register 1]
  fields := sequenceFields
  entries := [⟨"IndexImmReg", "index", 0x04204800⟩]

def sequenceFromBy : Family where
  signature := [.element, .vector, .general, .general]
  requirement := .empty
  checks := [.elementRegister 0 2, .elementRegister 0 3, .size 0 .plain, .register 1]
  fields := sequenceFields
  entries := [⟨"IndexRegReg", "index", 0x04204c00⟩]

/-- A general register plus a multiple of the vector or predicate length. -/
def lengthSum : Family where
  signature := [.general, .general, .int32]
  requirement := .empty
  checks := [.wide 0, .wide 1, .bounds "immediate" 2 (-32) 31]
  fields := [.register 0 0, .register 1 16, .low 2 6 5]
  entries := [⟨"Addvl", "addvl", 0x04205000⟩, ⟨"Addpl", "addpl", 0x04605000⟩]

def length : Family where
  signature := [.general, .int32]
  requirement := .empty
  checks := [.wide 0, .bounds "immediate" 1 (-32) 31]
  fields := [.register 0 0, .low 1 6 5]
  entries := [⟨"Rdvl", "rdvl", 0x04bf5000⟩]

def families : List Family :=
  [immediate, float, sequence, sequenceFrom, sequenceBy, sequenceFromBy, lengthSum, length]

end ScalableVector.Constant
