import ScalableVector.Encoding.Field

/-!
# Instructions

An instruction has a name for listings, a mnemonic for messages, the kinds of its operands, the
extensions it needs and an encoding. A call is an instruction with operands of the right kinds.
-/

namespace ScalableVector

/-- How the encoding of an instruction depends on its operands. -/
inductive Layout
  | fixed (encoding : Encoding)
  | bySize (slot : Nat) (size : ElementSize) (own other : Encoding)
  /-- The addressing mode of the last operand selects the encoding. Base and offset of the address
  take its place. -/
  | byAddress (slot : Nat) (register immediate : Encoding)

def withOffset (ops : List Operand) (slot : Nat) (base : GeneralRegister) (offset : Operand) :
    List Operand :=
  ops.take slot ++ [.general base, offset]

def Layout.encode (ops : List Operand) : Layout → Except Cause Word
  | fixed encoding => encoding.encode ops
  | bySize slot size own other =>
    if elementAt ops slot = size then own.encode ops else other.encode ops
  | byAddress slot register immediate =>
    let a := addressAt ops slot
    if a.mode = .scalarScalar then
      register.encode (withOffset ops slot a.base (.general a.offset))
    else if a.mode = .scalarImmediate then
      immediate.encode (withOffset ops slot a.base (.int32 a.immediate))
    else if a.mode ∈ [.scalarVector, .vectorImmediate] then .error (.unsupportedMode a.mode)
    else .error (.invalidMode a.mode)

structure Instruction where
  name : String
  mnemonic : String
  signature : List OperandKind
  requirement : FeatureSet
  layout : Layout

namespace Instruction

/-- The word for the operands, or the cause to refuse them. A missing extension is found first. -/
def word (i : Instruction) (enabled : FeatureSet) (ops : List Operand) : Except Cause Word :=
  if enabled.includes i.requirement then i.layout.encode ops
  else .error (.missingFeature (i.requirement.diff enabled) enabled)

def encode (i : Instruction) (enabled : FeatureSet) (ops : List Operand) :
    Except Rejection Word :=
  (i.word enabled ops).mapError (Rejection.mk i.mnemonic)

end Instruction

/-- An instruction with operands of the right kinds. -/
structure Call where
  instruction : Instruction
  operands : List Operand
  typed : operands.map Operand.kind = instruction.signature

namespace Call

def of? (i : Instruction) (ops : List Operand) : Option Call :=
  if h : ops.map Operand.kind = i.signature then some ⟨i, ops, h⟩ else none

def encode (c : Call) (enabled : FeatureSet) : Except Rejection Word :=
  c.instruction.encode enabled c.operands

end Call

/-!
## Families of instructions

Instructions that differ in their opcode only form a family. The opcode of an entry is the word of
the instruction with every field zero.
-/

structure Entry where
  name : String
  mnemonic : String
  opcode : Word

/-- Instructions that share their operands, conditions and fields. -/
structure Family where
  signature : List OperandKind
  requirement : FeatureSet
  checks : List Check
  fields : List Field
  entries : List Entry

namespace Family

def encoding (f : Family) (e : Entry) : Encoding := ⟨f.checks, e.opcode, f.fields⟩

def instruction (f : Family) (e : Entry) : Instruction :=
  ⟨e.name, e.mnemonic, f.signature, f.requirement, .fixed (f.encoding e)⟩

def instructions (f : Family) : List Instruction := f.entries.map f.instruction

end Family

abbrev OperandKind.plain : OperandKind := .predicate .plain

abbrev OperandKind.merging : OperandKind := .predicate .merging

abbrev OperandKind.zeroing : OperandKind := .predicate .zeroing

end ScalableVector
