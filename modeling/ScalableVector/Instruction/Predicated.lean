import ScalableVector.Instruction.Basic

/-!
# Instructions with a governing predicate

The governing predicate has three bits at bit 10. An instruction either overwrites its first source
or has one source only, or its destination is an accumulator.
-/

namespace ScalableVector.Predicated

def destructive : List OperandKind := [.element, .vector, .merging, .vector, .vector]

def destructiveChecks (allowed : ElementSizes) : List Check :=
  [.size 0 allowed, .register 1, .register 3, .register 4, .governing 2,
    .aliased "zd" 1 "zn" 3]

def destructiveFields : List Field := [.size 0, .register 1 0, .governing 2, .register 4 5]

def unaryChecks (allowed : ElementSizes) : List Check :=
  [.size 0 allowed, .register 1, .register 3, .governing 2]

def unaryFields : List Field := [.size 0, .register 1 0, .governing 2, .register 3 5]

def toFloatCodes : ConversionTable :=
  [([.half, .half], 0b0101), ([.single, .half], 0b0110), ([.single, .single], 0b1010),
    ([.single, .double], 0b1100), ([.double, .half], 0b0111), ([.double, .single], 0b1110),
    ([.double, .double], 0b1111)]

def toIntegerCodes : ConversionTable :=
  [([.half, .half], 0b0101), ([.half, .single], 0b0110), ([.half, .double], 0b0111),
    ([.single, .single], 0b1010), ([.single, .double], 0b1110), ([.double, .single], 0b1100),
    ([.double, .double], 0b1111)]

def arithmetic : Family where
  signature := destructive
  requirement := .empty
  checks := destructiveChecks .plain
  fields := destructiveFields
  entries := [⟨"AddPred", "add", 0x04000000⟩, ⟨"SubPred", "sub", 0x04010000⟩,
    ⟨"Subr", "subr", 0x04030000⟩, ⟨"Smax", "smax", 0x04080000⟩, ⟨"Umax", "umax", 0x04090000⟩,
    ⟨"Smin", "smin", 0x040a0000⟩, ⟨"Umin", "umin", 0x040b0000⟩, ⟨"Sabd", "sabd", 0x040c0000⟩,
    ⟨"Uabd", "uabd", 0x040d0000⟩, ⟨"MulPred", "mul", 0x04100000⟩,
    ⟨"SmulhPred", "smulh", 0x04120000⟩, ⟨"UmulhPred", "umulh", 0x04130000⟩,
    ⟨"OrrPred", "orr", 0x04180000⟩, ⟨"EorPred", "eor", 0x04190000⟩, ⟨"AndPred", "and", 0x041a0000⟩,
    ⟨"BicPred", "bic", 0x041b0000⟩, ⟨"AsrPred", "asr", 0x04108000⟩, ⟨"LsrPred", "lsr", 0x04118000⟩,
    ⟨"LslPred", "lsl", 0x04138000⟩, ⟨"Asrr", "asrr", 0x04148000⟩, ⟨"Lsrr", "lsrr", 0x04158000⟩,
    ⟨"Lslr", "lslr", 0x04178000⟩]

/-- Divisions, which exist for the two large element sizes. -/
def division : Family where
  signature := destructive
  requirement := .empty
  checks := destructiveChecks .large
  fields := destructiveFields
  entries := [⟨"Sdiv", "sdiv", 0x04140000⟩, ⟨"Udiv", "udiv", 0x04150000⟩,
    ⟨"Sdivr", "sdivr", 0x04160000⟩, ⟨"Udivr", "udivr", 0x04170000⟩]

def wideShift : Family where
  signature := destructive
  requirement := .empty
  checks := destructiveChecks .narrow
  fields := destructiveFields
  entries := [⟨"AsrWidePred", "asr", 0x04188000⟩, ⟨"LsrWidePred", "lsr", 0x04198000⟩,
    ⟨"LslWidePred", "lsl", 0x041b8000⟩]

def saturating : Family where
  signature := destructive
  requirement := .sve2
  checks := destructiveChecks .plain
  fields := destructiveFields
  entries := [⟨"Shadd", "shadd", 0x44108000⟩, ⟨"Uhadd", "uhadd", 0x44118000⟩,
    ⟨"Shsub", "shsub", 0x44128000⟩, ⟨"Uhsub", "uhsub", 0x44138000⟩,
    ⟨"Srhadd", "srhadd", 0x44148000⟩, ⟨"Urhadd", "urhadd", 0x44158000⟩,
    ⟨"Shsubr", "shsubr", 0x44168000⟩, ⟨"Uhsubr", "uhsubr", 0x44178000⟩,
    ⟨"Addp", "addp", 0x4411a000⟩, ⟨"Smaxp", "smaxp", 0x4414a000⟩, ⟨"Umaxp", "umaxp", 0x4415a000⟩,
    ⟨"Sminp", "sminp", 0x4416a000⟩, ⟨"Uminp", "uminp", 0x4417a000⟩,
    ⟨"SqaddPred", "sqadd", 0x44188000⟩, ⟨"UqaddPred", "uqadd", 0x44198000⟩,
    ⟨"SqsubPred", "sqsub", 0x441a8000⟩, ⟨"UqsubPred", "uqsub", 0x441b8000⟩,
    ⟨"Suqadd", "suqadd", 0x441c8000⟩, ⟨"Usqadd", "usqadd", 0x441d8000⟩,
    ⟨"Sqsubr", "sqsubr", 0x441e8000⟩, ⟨"Uqsubr", "uqsubr", 0x441f8000⟩]

def floating : Family where
  signature := destructive
  requirement := .empty
  checks := destructiveChecks .floating
  fields := destructiveFields
  entries := [⟨"FaddPred", "fadd", 0x65008000⟩, ⟨"FsubPred", "fsub", 0x65018000⟩,
    ⟨"FmulPred", "fmul", 0x65028000⟩, ⟨"Fsubr", "fsubr", 0x65038000⟩,
    ⟨"Fmaxnm", "fmaxnm", 0x65048000⟩, ⟨"Fminnm", "fminnm", 0x65058000⟩,
    ⟨"Fmax", "fmax", 0x65068000⟩, ⟨"Fmin", "fmin", 0x65078000⟩, ⟨"Fabd", "fabd", 0x65088000⟩,
    ⟨"Fscale", "fscale", 0x65098000⟩, ⟨"Fmulx", "fmulx", 0x650a8000⟩,
    ⟨"Fdivr", "fdivr", 0x650c8000⟩, ⟨"Fdiv", "fdiv", 0x650d8000⟩]

def floatingPairwise : Family where
  signature := destructive
  requirement := .sve2
  checks := destructiveChecks .floating
  fields := destructiveFields
  entries := [⟨"Faddp", "faddp", 0x64108000⟩, ⟨"Fmaxnmp", "fmaxnmp", 0x64148000⟩,
    ⟨"Fminnmp", "fminnmp", 0x64158000⟩, ⟨"Fmaxp", "fmaxp", 0x64168000⟩,
    ⟨"Fminp", "fminp", 0x64178000⟩]

def rotatedAddition : Family where
  signature := [.element, .vector, .merging, .vector, .vector, .rotation]
  requirement := .empty
  checks := [.size 0 .floating, .rotation 5, .register 1, .register 3, .register 4, .governing 2,
    .aliased "zd" 1 "zn" 3]
  fields := [.size 0, .register 1 0, .governing 2, .register 4 5, ⟨.operand 5, [⟨1, none, 16⟩]⟩]
  entries := [⟨"Fcadd", "fcadd", 0x64008000⟩]

/-- The trigonometric multiply-add, which has a coefficient in place of a predicate. -/
def trigonometric : Family where
  signature := [.element, .vector, .vector, .vector, .uint32]
  requirement := .empty
  checks := [.size 0 .floating, .bounds "immediate" 4 0 7, .register 1, .register 2, .register 3,
    .aliased "zd" 1 "zn" 2]
  fields := [.size 0, .register 1 0, .register 3 5, .whole 4 16]
  entries := [⟨"Ftmad", "ftmad", 0x65108000⟩]

def accumulation : Family where
  signature := [.element, .vector, .merging, .vector, .vector]
  requirement := .empty
  checks := [.size 0 .plain, .register 1, .register 3, .register 4, .governing 2]
  fields := [.size 0, .register 1 0, .governing 2, .register 3 5, .register 4 16]
  entries := [⟨"Mla", "mla", 0x04004000⟩, ⟨"Mls", "mls", 0x04006000⟩]

def multiplyAdd : Family where
  signature := [.element, .vector, .merging, .vector, .vector]
  requirement := .empty
  checks := [.size 0 .plain, .register 1, .register 4, .register 3, .governing 2]
  fields := [.size 0, .register 1 0, .governing 2, .register 4 5, .register 3 16]
  entries := [⟨"Mad", "mad", 0x0400c000⟩, ⟨"Msb", "msb", 0x0400e000⟩]

/-- Products of complex numbers. The rotation counts modulo a full turn. -/
def complexProduct : Family where
  signature := [.element, .vector, .merging, .vector, .vector, .rotation]
  requirement := .empty
  checks := [.size 0 .floating, .register 1, .register 3, .register 4, .governing 2]
  fields := [.size 0, .register 1 0, .governing 2, .register 3 5, .register 4 16, .low 5 2 13]
  entries := [⟨"Fcmla", "fcmla", 0x64000000⟩]

def histogram : Family where
  signature := [.element, .vector, .zeroing, .vector, .vector]
  requirement := .sve2
  checks := [.size 0 .large, .register 1, .register 3, .register 4, .governing 2]
  fields := [.size 0, .register 1 0, .governing 2, .register 3 5, .register 4 16]
  entries := [⟨"Histcnt", "histcnt", 0x4520c000⟩]

def unary : Family where
  signature := [.element, .vector, .merging, .vector]
  requirement := .empty
  checks := unaryChecks .plain
  fields := unaryFields
  entries := [⟨"Abs", "abs", 0x0416a000⟩, ⟨"Neg", "neg", 0x0417a000⟩, ⟨"Cls", "cls", 0x0418a000⟩,
    ⟨"Clz", "clz", 0x0419a000⟩, ⟨"Cnt", "cnt", 0x041aa000⟩, ⟨"Cnot", "cnot", 0x041ba000⟩,
    ⟨"Not", "not", 0x041ea000⟩, ⟨"MovprfxMerge", "movprfx", 0x04112000⟩,
    ⟨"Rbit", "rbit", 0x05278000⟩]

def byteExtension : Family where
  signature := [.element, .vector, .merging, .vector]
  requirement := .empty
  checks := unaryChecks .wide
  fields := unaryFields
  entries := [⟨"Sxtb", "sxtb", 0x0410a000⟩, ⟨"Uxtb", "uxtb", 0x0411a000⟩,
    ⟨"Revb", "revb", 0x05248000⟩]

def halfExtension : Family where
  signature := [.element, .vector, .merging, .vector]
  requirement := .empty
  checks := unaryChecks .large
  fields := unaryFields
  entries := [⟨"Sxth", "sxth", 0x0412a000⟩, ⟨"Uxth", "uxth", 0x0413a000⟩,
    ⟨"Revh", "revh", 0x05258000⟩]

def wordExtension : Family where
  signature := [.element, .vector, .merging, .vector]
  requirement := .empty
  checks := unaryChecks [.double]
  fields := unaryFields
  entries := [⟨"Sxtw", "sxtw", 0x0414a000⟩, ⟨"Uxtw", "uxtw", 0x0415a000⟩,
    ⟨"Revw", "revw", 0x05268000⟩]

def floatingUnary : Family where
  signature := [.element, .vector, .merging, .vector]
  requirement := .empty
  checks := unaryChecks .floating
  fields := unaryFields
  entries := [⟨"Frintn", "frintn", 0x6500a000⟩, ⟨"Frintp", "frintp", 0x6501a000⟩,
    ⟨"Frintm", "frintm", 0x6502a000⟩, ⟨"Frintz", "frintz", 0x6503a000⟩,
    ⟨"Frinta", "frinta", 0x6504a000⟩, ⟨"Frintx", "frintx", 0x6506a000⟩,
    ⟨"Frinti", "frinti", 0x6507a000⟩, ⟨"Frecpx", "frecpx", 0x650ca000⟩,
    ⟨"Fsqrt", "fsqrt", 0x650da000⟩, ⟨"Fabs", "fabs", 0x041ca000⟩, ⟨"Fneg", "fneg", 0x041da000⟩]

def zeroingMove : Family where
  signature := [.element, .vector, .zeroing, .vector]
  requirement := .empty
  checks := unaryChecks .plain
  fields := unaryFields
  entries := [⟨"MovprfxZero", "movprfx", 0x04102000⟩]

def reduction : Family where
  signature := [.element, .scalar, .plain, .vector]
  requirement := .empty
  checks := unaryChecks .plain
  fields := unaryFields
  entries := [⟨"Uaddv", "uaddv", 0x04012000⟩, ⟨"Smaxv", "smaxv", 0x04082000⟩,
    ⟨"Umaxv", "umaxv", 0x04092000⟩, ⟨"Sminv", "sminv", 0x040a2000⟩, ⟨"Uminv", "uminv", 0x040b2000⟩,
    ⟨"Orv", "orv", 0x04182000⟩, ⟨"Eorv", "eorv", 0x04192000⟩, ⟨"Andv", "andv", 0x041a2000⟩,
    ⟨"LastaV", "lasta", 0x05228000⟩, ⟨"LastbV", "lastb", 0x05238000⟩]

/-- The signed sum of a vector, whose elements are widened. -/
def signedSum : Family where
  signature := [.element, .scalar, .plain, .vector]
  requirement := .empty
  checks := unaryChecks .narrow
  fields := unaryFields
  entries := [⟨"Saddv", "saddv", 0x04002000⟩]

def floatingReduction : Family where
  signature := [.element, .scalar, .plain, .vector]
  requirement := .empty
  checks := unaryChecks .floating
  fields := unaryFields
  entries := [⟨"Faddv", "faddv", 0x65002000⟩, ⟨"Fmaxnmv", "fmaxnmv", 0x65042000⟩,
    ⟨"Fminnmv", "fminnmv", 0x65052000⟩, ⟨"Fmaxv", "fmaxv", 0x65062000⟩,
    ⟨"Fminv", "fminv", 0x65072000⟩]

def orderedSum : Family where
  signature := [.element, .scalar, .plain, .scalar, .vector]
  requirement := .empty
  checks := [.size 0 .floating, .register 3, .aliased "vd" 1 "vdn" 3, .register 1, .register 4,
    .governing 2]
  fields := [.size 0, .register 1 0, .governing 2, .register 4 5]
  entries := [⟨"Fadda", "fadda", 0x65182000⟩]

def oddRounding : Family where
  signature := [.vector, .merging, .vector]
  requirement := .sve2
  checks := [.register 0, .register 2, .governing 1]
  fields := [.register 0 0, .governing 1, .register 2 5]
  entries := [⟨"Fcvtxnt", "fcvtxnt", 0x640aa000⟩]

def precisionNarrowing : Family where
  signature := [.element, .vector, .merging, .vector]
  requirement := .sve2
  checks := unaryChecks [.half, .single]
  fields := [⟨.select [0] [([.half], 0b10000), ([.single], 0b11010)],
      [⟨3, none, 22⟩, ⟨0, some 3, 16⟩]⟩,
    .register 1 0, .governing 2, .register 3 5]
  entries := [⟨"Fcvtnt", "fcvtnt", 0x6408a000⟩]

def precisionWidening : Family where
  signature := [.element, .vector, .merging, .vector]
  requirement := .sve2
  checks := unaryChecks .large
  fields := [⟨.select [0] [([.single], 0b10001), ([.double], 0b11011)],
      [⟨3, none, 22⟩, ⟨0, some 3, 16⟩]⟩,
    .register 1 0, .governing 2, .register 3 5]
  entries := [⟨"Fcvtlt", "fcvtlt", 0x6408a000⟩]

def logarithm : Family where
  signature := [.element, .vector, .merging, .vector]
  requirement := .sve2
  checks := unaryChecks .floating
  fields := [.whole 0 17, .register 1 0, .governing 2, .register 3 5]
  entries := [⟨"Flogb", "flogb", 0x6518a000⟩]

def toFloat : Family where
  signature := [.element, .vector, .merging, .vector, .element]
  requirement := .empty
  checks := [.convertible .toFloat 4 0 toFloatCodes, .register 1, .register 3, .governing 2]
  fields := [⟨.select [4, 0] toFloatCodes, [⟨2, none, 22⟩, ⟨0, some 2, 17⟩]⟩,
    .register 1 0, .governing 2, .register 3 5]
  entries := [⟨"Scvtf", "scvtf", 0x6510a000⟩, ⟨"Ucvtf", "ucvtf", 0x6511a000⟩]

def toInteger : Family where
  signature := [.element, .vector, .merging, .vector, .element]
  requirement := .empty
  checks := [.convertible .toInteger 4 0 toIntegerCodes, .register 1, .register 3, .governing 2]
  fields := [⟨.select [4, 0] toIntegerCodes, [⟨2, none, 22⟩, ⟨0, some 2, 17⟩]⟩, .register 1 0,
    .governing 2, .register 3 5]
  entries := [⟨"Fcvtzs", "fcvtzs", 0x6518a000⟩, ⟨"Fcvtzu", "fcvtzu", 0x6519a000⟩]

def families : List Family :=
  [arithmetic, division, wideShift, saturating, floating, floatingPairwise, rotatedAddition,
    trigonometric, accumulation, multiplyAdd, complexProduct, histogram, unary, byteExtension,
    halfExtension, wordExtension, floatingUnary, zeroingMove, reduction, signedSum,
    floatingReduction, orderedSum, oddRounding, precisionNarrowing, precisionWidening, logarithm,
    toFloat, toInteger]

end ScalableVector.Predicated
