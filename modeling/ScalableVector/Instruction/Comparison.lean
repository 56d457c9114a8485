import ScalableVector.Instruction.Basic

/-!
# Comparisons

Comparisons write a predicate. They compare two vectors, a vector and an immediate, or two general
registers.
-/

namespace ScalableVector.Comparison

def vectorChecks (allowed : ElementSizes) : List Check :=
  [.size 0 allowed, .register 4, .register 3, .register 1, .governing 2]

def vectorFields : List Field :=
  [.size 0, .register 1 0, .governing 2, .register 3 5, .low 4 5 16]

def loopChecks : List Check :=
  [.register 2, .register 3, .sameWidth 2 3, .register 1, .size 0 .plain]

/-- The fields of a loop condition. One bit holds the width that both registers have. -/
def loopFields : List Field :=
  [.size 0, .register 1 0, .register 2 5, .register 3 16, ⟨.is64 2, [⟨0, none, 12⟩]⟩]

def integer : Family where
  signature := [.element, .plain, .zeroing, .vector, .vector]
  requirement := .empty
  checks := [.register 4, .size 0 .plain, .register 3, .register 1, .governing 2]
  fields := vectorFields
  entries := [⟨"Cmpeq", "cmpeq", 0x2400a000⟩, ⟨"Cmpne", "cmpne", 0x2400a010⟩,
    ⟨"Cmpge", "cmpge", 0x24008000⟩, ⟨"Cmpgt", "cmpgt", 0x24008010⟩, ⟨"Cmphi", "cmphi", 0x24000010⟩,
    ⟨"Cmphs", "cmphs", 0x24000000⟩]

def wide : Family where
  signature := [.element, .plain, .zeroing, .vector, .vector]
  requirement := .empty
  checks := vectorChecks .narrow
  fields := vectorFields
  entries := [⟨"CmpeqWide", "cmpeq", 0x24002000⟩, ⟨"CmpneWide", "cmpne", 0x24002010⟩,
    ⟨"CmpgtWide", "cmpgt", 0x24004010⟩, ⟨"CmpgeWide", "cmpge", 0x24004000⟩,
    ⟨"CmphiWide", "cmphi", 0x2400c010⟩, ⟨"CmphsWide", "cmphs", 0x2400c000⟩,
    ⟨"CmpltWide", "cmplt", 0x24006000⟩, ⟨"CmpleWide", "cmple", 0x24006010⟩,
    ⟨"CmploWide", "cmplo", 0x2400e000⟩, ⟨"CmplsWide", "cmpls", 0x2400e010⟩]

def floating : Family where
  signature := [.element, .plain, .zeroing, .vector, .vector]
  requirement := .empty
  checks := vectorChecks .floating
  fields := vectorFields
  entries := [⟨"Fcmeq", "fcmeq", 0x65006000⟩, ⟨"Fcmgt", "fcmgt", 0x65004010⟩,
    ⟨"Fcmge", "fcmge", 0x65004000⟩, ⟨"Fcmne", "fcmne", 0x65006010⟩, ⟨"Fcmuo", "fcmuo", 0x6500c000⟩,
    ⟨"Facge", "facge", 0x6500c010⟩, ⟨"Facgt", "facgt", 0x6500e010⟩]

/-- Comparisons of absolute values with the sources exchanged. -/
def floatingSwapped : Family where
  signature := [.element, .plain, .zeroing, .vector, .vector]
  requirement := .empty
  checks := [.size 0 .floating, .register 3, .register 4, .register 1, .governing 2]
  fields := [.size 0, .register 1 0, .governing 2, .register 4 5, .low 3 5 16]
  entries := [⟨"Facle", "facle", 0x6500c010⟩, ⟨"Faclt", "faclt", 0x6500e010⟩]

def search : Family where
  signature := [.element, .plain, .zeroing, .vector, .vector]
  requirement := .sve2
  checks := vectorChecks [.byte, .half]
  fields := vectorFields
  entries := [⟨"Match", "match", 0x45208000⟩, ⟨"Nmatch", "nmatch", 0x45208010⟩]

def signedImmediate : Family where
  signature := [.element, .plain, .zeroing, .vector, .int32]
  requirement := .empty
  checks := [.bounds "immediate" 4 (-16) 15, .size 0 .plain, .register 3, .register 1, .governing 2]
  fields := [.size 0, .register 1 0, .governing 2, .register 3 5, .low 4 5 16]
  entries := [⟨"CmpeqImm", "cmpeq", 0x25008000⟩, ⟨"CmpneImm", "cmpne", 0x25008010⟩,
    ⟨"CmpgtImm", "cmpgt", 0x25000010⟩, ⟨"CmpgeImm", "cmpge", 0x25000000⟩,
    ⟨"CmpltImm", "cmplt", 0x25002000⟩, ⟨"CmpleImm", "cmple", 0x25002010⟩]

def unsignedImmediate : Family where
  signature := [.element, .plain, .zeroing, .vector, .uint32]
  requirement := .empty
  checks := [.size 0 .plain, .register 3, .register 1, .governing 2, .bounds "immediate" 4 0 127]
  fields := [.size 0, .register 1 0, .governing 2, .register 3 5, .whole 4 14]
  entries := [⟨"CmphiImm", "cmphi", 0x24200010⟩, ⟨"CmphsImm", "cmphs", 0x24200000⟩,
    ⟨"CmploImm", "cmplo", 0x24202000⟩, ⟨"CmplsImm", "cmpls", 0x24202010⟩]

def zero : Family where
  signature := [.element, .plain, .zeroing, .vector]
  requirement := .empty
  checks := [.size 0 .floating, .register 3, .register 1, .governing 2]
  fields := [.size 0, .register 1 0, .governing 2, .register 3 5]
  entries := [⟨"FcmgeZero", "fcmge", 0x65102000⟩, ⟨"FcmgtZero", "fcmgt", 0x65102010⟩,
    ⟨"FcmltZero", "fcmlt", 0x65112000⟩, ⟨"FcmleZero", "fcmle", 0x65112010⟩,
    ⟨"FcmeqZero", "fcmeq", 0x65122000⟩, ⟨"FcmneZero", "fcmne", 0x65132000⟩]

def loop : Family where
  signature := [.element, .plain, .general, .general]
  requirement := .empty
  checks := loopChecks
  fields := loopFields
  entries := [⟨"Whilelt", "whilelt", 0x25200400⟩, ⟨"Whilele", "whilele", 0x25200410⟩,
    ⟨"Whilelo", "whilelo", 0x25200c00⟩, ⟨"Whilels", "whilels", 0x25200c10⟩]

def reverseLoop : Family where
  signature := [.element, .plain, .general, .general]
  requirement := .sve2
  checks := loopChecks
  fields := loopFields
  entries := [⟨"Whilege", "whilege", 0x25200000⟩, ⟨"Whilegt", "whilegt", 0x25200010⟩,
    ⟨"Whilehs", "whilehs", 0x25200800⟩, ⟨"Whilehi", "whilehi", 0x25200810⟩]

def hazard : Family where
  signature := [.element, .plain, .general, .general]
  requirement := .sve2
  checks := [.wide 2, .wide 3, .register 1, .size 0 .plain]
  fields := [.size 0, .register 1 0, .register 2 5, .register 3 16]
  entries := [⟨"Whilewr", "whilewr", 0x25203000⟩, ⟨"Whilerw", "whilerw", 0x25203010⟩]

def termination : Family where
  signature := [.general, .general]
  requirement := .empty
  checks := [.register 0, .register 1, .sameWidth 0 1]
  fields := [.register 0 5, .register 1 16, ⟨.is64 0, [⟨0, none, 22⟩]⟩]
  entries := [⟨"Ctermeq", "ctermeq", 0x25a02000⟩, ⟨"Ctermne", "ctermne", 0x25a02010⟩]

def families : List Family :=
  [integer, wide, floating, floatingSwapped, search, signedImmediate, unsignedImmediate, zero, loop,
    reverseLoop, hazard, termination]

end ScalableVector.Comparison
