import ScalableVector.Instruction.Basic

/-!
# Moves and permutations

Instructions that move elements within and between registers.
-/

namespace ScalableVector.Permutation

def activeFields : List Field := [.size 0, .register 1 0, .governing 2, .register 3 5]

def sourceFields : List Field := [.size 0, .register 1 0, .governing 2, .register 4 5]

def conditionalChecks : List Check :=
  [.register 3, .aliased "destination" 1 "first source" 3, .size 0 .plain, .register 1,
    .register 4, .governing 2]

/-- The broadcast of one element, which is the only instruction with 128-bit elements. -/
def lane : Family where
  signature := [.element, .vector, .vector, .uint32]
  requirement := .empty
  checks := [.size 0 .every, .register 1, .register 2, .lane 0 3]
  fields := [⟨.lane 0 3, [⟨5, none, 22⟩, ⟨0, some 5, 16⟩]⟩, .register 1 0, .register 2 5]
  entries := [⟨"DupIndexed", "dup", 0x05202000⟩]

def broadcast : Family where
  signature := [.element, .vector, .general]
  requirement := .empty
  checks := [.elementRegister 0 2, .size 0 .plain, .register 1]
  fields := [.size 0, .register 1 0, .register 2 5]
  entries := [⟨"Dup", "dup", 0x05203800⟩, ⟨"MovR", "dup", 0x05203800⟩, ⟨"Insr", "insr", 0x05243800⟩]

def scalarInsertion : Family where
  signature := [.element, .vector, .scalar]
  requirement := .empty
  checks := [.size 0 .plain, .register 1, .register 2]
  fields := [.size 0, .register 1 0, .register 2 5]
  entries := [⟨"InsrV", "insr", 0x05343800⟩]

def reversal : Family where
  signature := [.element, .vector, .vector]
  requirement := .empty
  checks := [.size 0 .plain, .register 1, .register 2]
  fields := [.size 0, .register 1 0, .register 2 5]
  entries := [⟨"Rev", "rev", 0x05383800⟩]

def unpacking : Family where
  signature := [.element, .vector, .vector]
  requirement := .empty
  checks := [.size 0 .wide, .register 1, .register 2]
  fields := [.size 0, .register 1 0, .register 2 5]
  entries := [⟨"Sunpklo", "sunpklo", 0x05303800⟩, ⟨"Sunpkhi", "sunpkhi", 0x05313800⟩,
    ⟨"Uunpklo", "uunpklo", 0x05323800⟩, ⟨"Uunpkhi", "uunpkhi", 0x05333800⟩]

def selection : Family where
  signature := [.element, .vector, .plain, .vector, .vector]
  requirement := .empty
  checks := [.size 0 .plain, .register 1, .register 3, .register 4, .register 2]
  fields := [.size 0, .register 1 0, .register 2 10, .register 3 5, .register 4 16]
  entries := [⟨"Sel", "sel", 0x0520c000⟩]

/-- The copy of the active elements, which is a choice between the source and the destination. -/
def mergingMove : Family where
  signature := [.element, .vector, .merging, .vector]
  requirement := .empty
  checks := [.size 0 .plain, .register 1, .register 3, .register 2]
  fields := [.size 0, ⟨.operand 1, [⟨0, none, 0⟩, ⟨0, none, 16⟩]⟩, .register 2 10, .register 3 5]
  entries := [⟨"MovMerge", "mov", 0x0520c000⟩]

def registerCopy : Family where
  signature := [.element, .vector, .merging, .general]
  requirement := .empty
  checks := [.elementRegister 0 3, .size 0 .plain, .register 1, .governing 2]
  fields := activeFields
  entries := [⟨"Cpy", "cpy", 0x0528a000⟩]

def scalarCopy : Family where
  signature := [.element, .vector, .merging, .scalar]
  requirement := .empty
  checks := [.size 0 .plain, .register 1, .register 3, .governing 2]
  fields := activeFields
  entries := [⟨"CpyV", "cpy", 0x05208000⟩]

def compaction : Family where
  signature := [.element, .vector, .plain, .vector]
  requirement := .empty
  checks := [.size 0 .large, .register 1, .register 3, .governing 2]
  fields := activeFields
  entries := [⟨"Compact", "compact", 0x05218000⟩]

def registerExtraction : Family where
  signature := [.element, .general, .plain, .vector]
  requirement := .empty
  checks := [.elementRegister 0 1, .size 0 .plain, .register 3, .governing 2]
  fields := activeFields
  entries := [⟨"Lasta", "lasta", 0x0520a000⟩, ⟨"Lastb", "lastb", 0x0521a000⟩]

def pairSplice : Family where
  signature := [.element, .vector, .plain, .vector, .vector]
  requirement := .sve2
  checks := [.register 4, .sequential [3, 4], .size 0 .plain, .register 1, .register 3,
    .governing 2]
  fields := activeFields
  entries := [⟨"SpliceConstructive", "splice", 0x052d8000⟩]

def splice : Family where
  signature := [.element, .vector, .plain, .vector, .vector]
  requirement := .empty
  checks := [.register 3, .aliased "zd" 1 "zdn" 3, .size 0 .plain, .register 1, .register 4,
    .governing 2]
  fields := sourceFields
  entries := [⟨"SpliceDestructive", "splice", 0x052c8000⟩]

def conditionalBroadcast : Family where
  signature := [.element, .vector, .plain, .vector, .vector]
  requirement := .empty
  checks := conditionalChecks
  fields := sourceFields
  entries := [⟨"Clasta", "clasta", 0x05288000⟩, ⟨"Clastb", "clastb", 0x05298000⟩]

def conditionalScalar : Family where
  signature := [.element, .scalar, .plain, .scalar, .vector]
  requirement := .empty
  checks := conditionalChecks
  fields := sourceFields
  entries := [⟨"ClastaV", "clasta", 0x052a8000⟩, ⟨"ClastbV", "clastb", 0x052b8000⟩]

def conditionalRegister : Family where
  signature := [.element, .general, .plain, .general, .vector]
  requirement := .empty
  checks := .elementRegister 0 1 :: conditionalChecks
  fields := sourceFields
  entries := [⟨"ClastaR", "clasta", 0x0530a000⟩, ⟨"ClastbR", "clastb", 0x0531a000⟩]

def pairExtraction : Family where
  signature := [.vector, .vector, .vector, .uint32]
  requirement := .sve2
  checks := [.register 1, .register 2, .sequential [1, 2], .register 0, .bounds "index" 3 0 255]
  fields := [.register 0 0, .register 1 5, ⟨.operand 3, [⟨3, none, 16⟩, ⟨0, some 3, 10⟩]⟩]
  entries := [⟨"ExtConstructive", "ext", 0x05600000⟩]

def extraction : Family where
  signature := [.vector, .vector, .vector, .uint32]
  requirement := .empty
  checks := [.register 1, .aliased "zd" 0 "zdn" 1, .register 0, .register 2,
    .bounds "index" 3 0 255]
  fields := [.register 0 0, .register 2 5, ⟨.operand 3, [⟨3, none, 16⟩, ⟨0, some 3, 10⟩]⟩]
  entries := [⟨"ExtDestructive", "ext", 0x05200000⟩]

def families : List Family :=
  [lane, broadcast, scalarInsertion, reversal, unpacking, selection, mergingMove, registerCopy,
    scalarCopy, compaction, registerExtraction, pairSplice, splice, conditionalBroadcast,
    conditionalScalar, conditionalRegister, pairExtraction, extraction]

end ScalableVector.Permutation
