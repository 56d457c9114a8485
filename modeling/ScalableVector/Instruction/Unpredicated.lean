import ScalableVector.Instruction.Basic

/-!
# Instructions without a predicate

Most of them take an element size, a destination and two sources, all vectors:
`size` at bit 22, the second source at bit 16, the first at bit 5 and the destination at bit 0.
-/

namespace ScalableVector.Unpredicated

def threeVectors : List OperandKind := [.element, .vector, .vector, .vector]

def threeChecks (allowed : ElementSizes) : List Check :=
  [.size 0 allowed, .register 1, .register 2, .register 3]

def threeFields : List Field := [.size 0, .register 1 0, .register 2 5, .register 3 16]

def arithmetic : Family where
  signature := threeVectors
  requirement := .empty
  checks := threeChecks .plain
  fields := threeFields
  entries := [⟨"Add", "add", 0x04200000⟩, ⟨"Sub", "sub", 0x04200400⟩,
    ⟨"Sqadd", "sqadd", 0x04201000⟩, ⟨"Uqadd", "uqadd", 0x04201400⟩, ⟨"Sqsub", "sqsub", 0x04201800⟩,
    ⟨"Uqsub", "uqsub", 0x04201c00⟩, ⟨"Tbl", "tbl", 0x05203000⟩, ⟨"Zip1", "zip1", 0x05206000⟩,
    ⟨"Zip2", "zip2", 0x05206400⟩, ⟨"Uzp1", "uzp1", 0x05206800⟩, ⟨"Uzp2", "uzp2", 0x05206c00⟩,
    ⟨"Trn1", "trn1", 0x05207000⟩, ⟨"Trn2", "trn2", 0x05207400⟩]

def floating : Family where
  signature := threeVectors
  requirement := .empty
  checks := threeChecks .floating
  fields := threeFields
  entries := [⟨"Fadd", "fadd", 0x65000000⟩, ⟨"Fsub", "fsub", 0x65000400⟩,
    ⟨"Fmul", "fmul", 0x65000800⟩, ⟨"Ftsmul", "ftsmul", 0x65000c00⟩,
    ⟨"Frecps", "frecps", 0x65001800⟩, ⟨"Frsqrts", "frsqrts", 0x65001c00⟩,
    ⟨"Ftssel", "ftssel", 0x0420b000⟩]

def wideShift : Family where
  signature := threeVectors
  requirement := .empty
  checks := threeChecks .narrow
  fields := threeFields
  entries := [⟨"AsrWide", "asr", 0x04208000⟩, ⟨"LsrWide", "lsr", 0x04208400⟩,
    ⟨"LslWide", "lsl", 0x04208c00⟩]

def multiplication : Family where
  signature := threeVectors
  requirement := .sve2
  checks := threeChecks .plain
  fields := threeFields
  entries := [⟨"Mul", "mul", 0x04206000⟩, ⟨"Smulh", "smulh", 0x04206800⟩,
    ⟨"Umulh", "umulh", 0x04206c00⟩, ⟨"Sqdmulh", "sqdmulh", 0x04207000⟩,
    ⟨"Sqrdmulh", "sqrdmulh", 0x04207400⟩, ⟨"Eorbt", "eorbt", 0x45009000⟩,
    ⟨"Eortb", "eortb", 0x45009400⟩, ⟨"Saba", "saba", 0x4500f800⟩, ⟨"Uaba", "uaba", 0x4500fc00⟩,
    ⟨"Tbx", "tbx", 0x05202c00⟩]

def byteProduct : Family where
  signature := threeVectors
  requirement := .sve2
  checks := threeChecks [.byte]
  fields := threeFields
  entries := [⟨"Pmul", "pmul", 0x04206400⟩]

/-- Operations that widen their sources. The size is that of the destination. -/
def widening : Family where
  signature := threeVectors
  requirement := .sve2
  checks := threeChecks .wide
  fields := threeFields
  entries := [⟨"Saddlb", "saddlb", 0x45000000⟩, ⟨"Saddlt", "saddlt", 0x45000400⟩,
    ⟨"Uaddlb", "uaddlb", 0x45000800⟩, ⟨"Uaddlt", "uaddlt", 0x45000c00⟩,
    ⟨"Ssublb", "ssublb", 0x45001000⟩, ⟨"Ssublt", "ssublt", 0x45001400⟩,
    ⟨"Usublb", "usublb", 0x45001800⟩, ⟨"Usublt", "usublt", 0x45001c00⟩,
    ⟨"Sabdlb", "sabdlb", 0x45003000⟩, ⟨"Sabdlt", "sabdlt", 0x45003400⟩,
    ⟨"Uabdlb", "uabdlb", 0x45003800⟩, ⟨"Uabdlt", "uabdlt", 0x45003c00⟩,
    ⟨"Sqdmullb", "sqdmullb", 0x45006000⟩, ⟨"Sqdmullt", "sqdmullt", 0x45006400⟩,
    ⟨"Smullb", "smullb", 0x45007000⟩, ⟨"Smullt", "smullt", 0x45007400⟩,
    ⟨"Umullb", "umullb", 0x45007800⟩, ⟨"Umullt", "umullt", 0x45007c00⟩,
    ⟨"Saddlbt", "saddlbt", 0x45008000⟩, ⟨"Ssublbt", "ssublbt", 0x45008800⟩,
    ⟨"Ssubltb", "ssubltb", 0x45008c00⟩, ⟨"Sabalb", "sabalb", 0x4500c000⟩,
    ⟨"Sabalt", "sabalt", 0x4500c400⟩, ⟨"Uabalb", "uabalb", 0x4500c800⟩,
    ⟨"Uabalt", "uabalt", 0x4500cc00⟩]

def wideningProduct : Family where
  signature := threeVectors
  requirement := .sve2
  checks := threeChecks [.half, .double]
  fields := threeFields
  entries := [⟨"Pmullb", "pmullb", 0x45006800⟩, ⟨"Pmullt", "pmullt", 0x45006c00⟩]

def bitPermutation : Family where
  signature := threeVectors
  requirement := (.union .sve2 .bitPerm)
  checks := threeChecks .plain
  fields := threeFields
  entries := [⟨"Bext", "bext", 0x4500b000⟩, ⟨"Bdep", "bdep", 0x4500b400⟩,
    ⟨"Bgrp", "bgrp", 0x4500b800⟩]

/-- Additions and subtractions that keep the high halves. The word holds the size of the sources,
one step above that of the destination. -/
def narrowing : Family where
  signature := threeVectors
  requirement := .sve2
  checks := threeChecks .narrow
  fields := [⟨.select [0] [([.byte], 1), ([.half], 2), ([.single], 3)], [⟨0, none, 22⟩]⟩,
    .register 1 0, .register 2 5, .register 3 16]
  entries := [⟨"Addhnb", "addhnb", 0x45206000⟩, ⟨"Addhnt", "addhnt", 0x45206400⟩,
    ⟨"Raddhnb", "raddhnb", 0x45206800⟩, ⟨"Raddhnt", "raddhnt", 0x45206c00⟩,
    ⟨"Subhnb", "subhnb", 0x45207000⟩, ⟨"Subhnt", "subhnt", 0x45207400⟩,
    ⟨"Rsubhnb", "rsubhnb", 0x45207800⟩, ⟨"Rsubhnt", "rsubhnt", 0x45207c00⟩]

def carry : Family where
  signature := threeVectors
  requirement := .sve2
  checks := threeChecks .large
  fields := [⟨.select [0] [([.single], 0), ([.double], 1)], [⟨0, none, 22⟩]⟩, .register 1 0,
    .register 2 5, .register 3 16]
  entries := [⟨"Adclb", "adclb", 0x4500d000⟩, ⟨"Adclt", "adclt", 0x4500d400⟩,
    ⟨"Sbclb", "sbclb", 0x4580d000⟩, ⟨"Sbclt", "sbclt", 0x4580d400⟩]

def bitwise : Family where
  signature := [.vector, .vector, .vector]
  requirement := .empty
  checks := [.register 0, .register 1, .register 2]
  fields := [.register 0 0, .register 1 5, .register 2 16]
  entries := [⟨"And", "and", 0x04203000⟩, ⟨"Orr", "orr", 0x04603000⟩, ⟨"Eor", "eor", 0x04a03000⟩,
    ⟨"Bic", "bic", 0x04e03000⟩]

def histogram : Family where
  signature := [.vector, .vector, .vector]
  requirement := .sve2
  checks := [.register 0, .register 1, .register 2]
  fields := [.register 0 0, .register 1 5, .register 2 16]
  entries := [⟨"Histseg", "histseg", 0x4520a000⟩]

def matrix : Family where
  signature := [.vector, .vector, .vector]
  requirement := .i8mm
  checks := [.register 0, .register 1, .register 2]
  fields := [.register 0 0, .register 1 5, .register 2 16]
  entries := [⟨"Smmla", "smmla", 0x45009800⟩, ⟨"Usmmla", "usmmla", 0x45809800⟩,
    ⟨"Ummla", "ummla", 0x45c09800⟩]

/-- The copy of a vector, which is the disjunction of a vector with itself. -/
def copy : Family where
  signature := [.vector, .vector]
  requirement := .empty
  checks := [.register 0, .register 1]
  fields := [.register 0 0, ⟨.operand 1, [⟨0, none, 5⟩, ⟨0, none, 16⟩]⟩]
  entries := [⟨"Mov", "mov", 0x04603000⟩]

def movePrefix : Family where
  signature := [.vector, .vector]
  requirement := .empty
  checks := [.register 0, .register 1]
  fields := [.register 0 0, .register 1 5]
  entries := [⟨"Movprfx", "movprfx", 0x0420bc00⟩]

def estimate : Family where
  signature := [.element, .vector, .vector]
  requirement := .empty
  checks := [.size 0 .floating, .register 1, .register 2]
  fields := [.size 0, .register 1 0, .register 2 5]
  entries := [⟨"Frecpe", "frecpe", 0x650e3000⟩, ⟨"Frsqrte", "frsqrte", 0x650f3000⟩,
    ⟨"Fexpa", "fexpa", 0x0420b800⟩]

def ternary : Family where
  signature := [.vector, .vector, .vector, .vector]
  requirement := .sve2
  checks := [.register 0, .register 1, .register 2, .register 3, .aliased "zd" 0 "zdn" 1]
  fields := [.register 0 0, .register 2 16, .register 3 5]
  entries := [⟨"Eor3", "eor3", 0x04203800⟩, ⟨"Bsl", "bsl", 0x04203c00⟩,
    ⟨"Bcax", "bcax", 0x04603800⟩, ⟨"Bsl1n", "bsl1n", 0x04603c00⟩, ⟨"Bsl2n", "bsl2n", 0x04a03c00⟩,
    ⟨"Nbsl", "nbsl", 0x04e03c00⟩]

def complexAddition : Family where
  signature := [.element, .vector, .vector, .vector, .rotation]
  requirement := .sve2
  checks := [.rotation 4, .size 0 .plain, .register 1, .register 2, .register 3,
    .aliased "zd" 1 "zdn" 2]
  fields := [.size 0, .register 1 0, .register 3 5, ⟨.operand 4, [⟨1, none, 10⟩]⟩]
  entries := [⟨"Cadd", "cadd", 0x4500d800⟩, ⟨"Sqcadd", "sqcadd", 0x4501d800⟩]

def families : List Family :=
  [arithmetic, floating, wideShift, multiplication, byteProduct, widening, wideningProduct,
    bitPermutation, narrowing, carry, bitwise, histogram, matrix, copy, movePrefix, estimate,
    ternary, complexAddition]

end ScalableVector.Unpredicated

namespace ScalableVector.IndexedProduct

def checks (lastIndex lastSource : Int) : List Check :=
  [.size 0 [.half, .single], .register 1, .register 2, .register 3,
    .bounds "index" 4 0 lastIndex, .bounds "zm" 3 0 lastSource]

def halfEncoding : Encoding :=
  ⟨checks 3 7, 0x64a01000,
    [.register 1 0, .register 2 5, .register 3 16, .whole 4 19, .low 5 2 10]⟩

def singleEncoding : Encoding :=
  ⟨checks 1 15, 0x64e01000,
    [.register 1 0, .register 2 5, .register 3 16, .whole 4 20, .low 5 2 10]⟩

/-- The instruction. The rotation counts modulo a full turn. -/
def instruction : Instruction :=
  ⟨"FcmlaIndexed", "fcmla", [.element, .vector, .vector, .vector, .uint32, .rotation], .empty,
    .bySize 0 .half halfEncoding singleEncoding⟩

end ScalableVector.IndexedProduct

