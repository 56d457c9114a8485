import ScalableVector.Number.Float
import ScalableVector.Number.Integer
import ScalableVector.Operand.Basic
import ScalableVector.Text.Basic
import ScalableVector.Text.LowerCase

/-!
# Operand texts

How operands are written in listings. Letters may be in either case. Registers may carry the suffix
of an element size, which has no meaning of its own; numbers may start with `#`.
-/

namespace ScalableVector

inductive ReadError
  | elementSize (text : Bytes)
  | register (text : Bytes)
  | arrangement (text : Bytes)
  | unqualified (text : Bytes) (view : Predication)
  | rotation (text : Bytes)
  | pattern (text : Bytes)
  | form (text : Bytes)
  | address (text : Bytes)
  | addressOffset (text : Bytes) (error : Number.Error)
  | number (error : Number.Error)
  | unsupported (type : String)
  deriving DecidableEq

namespace ReadError

def message : ReadError → String
  | elementSize text => "invalid element size " ++ Text.quote text
  | register text => "invalid register " ++ Text.quote text
  | arrangement text => "invalid arrangement " ++ Text.quote text
  | unqualified text view =>
    "predicate " ++ Text.quote text ++ " must be qualified with " ++ view.qualifier
  | rotation text => "invalid rotation " ++ Text.quote text
  | pattern text => "invalid predicate pattern " ++ Text.quote text
  | form text => "invalid operation type " ++ Text.quote text
  | address text => "invalid memory operand " ++ Text.quote text
  | addressOffset text error =>
    "invalid memory operand " ++ Text.quote text ++ ": " ++ error.message
  | number error => error.message
  | unsupported type => "BUG: unsupported operand type " ++ type

def fault? : ReadError → Option Number.Fault
  | addressOffset _ error | number error => some error.fault
  | _ => none

end ReadError

namespace Reader

def dropMark (mark : UInt8) : Bytes → Bytes
  | [] => []
  | c :: s => if c = mark then s else c :: s

def dropHash (s : Bytes) : Bytes := dropMark 0x23 s

def elementSize (s : Bytes) : Except ReadError ElementSize :=
  let name := Text.lower (dropMark 0x2e s)
  match (ElementSize.ofSuffix? name).or (ElementSize.ofWidth? name) with
  | some size => .ok size
  | none => .error (.elementSize name)

def numberBelow (letter : UInt8) (limit : Nat) (s : Bytes) : Except ReadError UInt8 :=
  match s with
  | c :: digits =>
    match (if c = letter then Number.digitsValue? digits else none).filter (· < limit) with
    | some n => .ok (UInt8.ofNat n)
    | none => .error (.register s)
  | [] => .error (.register s)

def dropArrangement (s : Bytes) : Except ReadError Bytes :=
  match s.dropWhile (· ≠ 0x2e) with
  | [] => .ok s
  | _ :: suffix =>
    match ElementSize.ofSuffix? suffix with
    | some _ => .ok (s.takeWhile (· ≠ 0x2e))
    | none => .error (.arrangement s)

def vector (s : Bytes) : Except ReadError VectorRegister := do
  return ⟨← numberBelow 0x7a 32 (← dropArrangement (Text.lower s))⟩

def plainPredicate (s : Bytes) : Except ReadError PredicateRegister := do
  return ⟨← numberBelow 0x70 16 (← dropArrangement (Text.lower s))⟩

def dropEnding? (ending s : Bytes) : Option Bytes :=
  if ending.isSuffixOf s then some (s.take (s.length - ending.length)) else none

def predicate (view : Predication) (s : Bytes) : Except ReadError PredicateRegister :=
  match view with
  | .plain => plainPredicate s
  | .merging | .zeroing =>
    match dropEnding? (Bytes.ofString view.qualifier) (Text.lower s) with
    | some register => plainPredicate register
    | none => .error (.unqualified (Text.lower s) view)

def namedGeneral : List (String × GeneralRegister) :=
  [("sp", .xzr), ("xzr", .xzr), ("wsp", .wzr), ("wzr", .wzr)]

def general (s : Bytes) : Except ReadError GeneralRegister :=
  let name := Text.lower s
  match namedGeneral.find? fun entry => Bytes.ofString entry.1 = name with
  | some entry => .ok entry.2
  | none =>
    if name.head? = some 0x77 then
      (numberBelow 0x77 31 name).map fun n => .w n.toUInt32
    else (numberBelow 0x78 31 name).map fun n => .x n.toUInt32

def scalarLetters : Bytes := Bytes.ofString "vbhsdq"

def scalar (s : Bytes) : Except ReadError ScalarRegister :=
  let name := Text.lower s
  match name.head?.filter scalarLetters.contains with
  | some letter => (numberBelow letter 32 name).map .mk
  | none => .error (.register name)

def rotation (s : Bytes) : Except ReadError Rotation :=
  match (Number.signedDigits? (dropHash s)).filter fun d => 0 ≤ d ∧ d ≤ 270 ∧ 90 ∣ d with
  | some degrees => .ok ⟨UInt8.ofNat (degrees.toNat / 90)⟩
  | none => .error (.rotation s)

def pattern (s : Bytes) : Except ReadError Pattern :=
  match Pattern.ofName? (Text.lower s) with
  | some p => .ok p
  | none =>
    match Number.readNatural 8 (dropHash s) with
    | .ok n => .ok ⟨UInt8.ofNat n⟩
    | .error _ => .error (.pattern s)

def form (s : Bytes) : Except ReadError Form :=
  match [Form.destructive, .constructive].find? fun f =>
      Bytes.ofString f.text = Text.lower s with
  | some f => .ok f
  | none => .error (.form s)

def insideBrackets? (s : Bytes) : Option Bytes :=
  match s with
  | 0x5b :: rest => if rest.getLast? = some 0x5d then some rest.dropLast else none
  | _ => none

/-- The second part of an address: an immediate, or else a register in lower case. A part that is
missing is the immediate zero. -/
def addressOffset (s : Bytes) : Option Bytes → Except ReadError (Int × Bytes)
  | none => .ok (0, [])
  | some part =>
    if part.head? = some 0x23 then
      match Number.readInteger 32 (dropHash part) with
      | .ok imm => .ok (imm, [])
      | .error e => .error (.addressOffset s e)
    else .ok (0, Text.lower part)

def vectorAddress (s : Bytes) (partCount : Nat) (base offset : Bytes) (imm : Int) :
    Except ReadError Address :=
  match vector base with
  | .ok z =>
    if offset ≠ [] ∨ partCount = 3 then .error (.address s)
    else .ok (.ofVectorBase z (Int32.ofInt imm))
  | .error _ => .error (.address s)

def generalAddress (base offset : Bytes) (imm : Int) : Except ReadError Address := do
  let r ← general base
  if offset = [] then return .ofImmediate r (Int32.ofInt imm)
  else if offset.head? = some 0x7a then return .ofVectorOffset r (← vector offset)
  else return .ofScalar r (← general offset)

def addressOfParts (s : Bytes) (base : Bytes) (rest : List Bytes) :
    Except ReadError Address := do
  let (imm, offset) ← addressOffset s rest.head?
  if rest.length = 2 ∧ (offset ≠ [] ∨ rest[1]?.map Text.lower ≠ some (Bytes.ofString "mul vl")) then
    throw (.address s)
  if (Text.lower base).head? = some 0x7a then
    vectorAddress s (rest.length + 1) (Text.lower base) offset imm
  else generalAddress base offset imm

def address (s : Bytes) : Except ReadError Address :=
  match (insideBrackets? s).map Text.parts with
  | some (base :: rest) =>
    if 2 < rest.length then .error (.address s) else addressOfParts s base rest
  | _ => .error (.address s)

def integer (bits : Nat) (s : Bytes) : Except ReadError Int :=
  (Number.readInteger bits (dropHash s)).mapError .number

end Reader

def Operand.read (kind : OperandKind) (s : Bytes) : Except ReadError Operand :=
  match kind with
  | .element => (Reader.elementSize s).map .element
  | .vector => (Reader.vector s).map .vector
  | .predicate view => (Reader.predicate view s).map (.predicate view)
  | .scalar => (Reader.scalar s).map .scalar
  | .general => (Reader.general s).map .general
  | .rotation => (Reader.rotation s).map .rotation
  | .pattern => (Reader.pattern s).map .pattern
  | .form => (Reader.form s).map .form
  | .address => (Reader.address s).map .address
  | .int32 => (Reader.integer 32 s).map fun i => .int32 (Int32.ofInt i)
  | .int64 => (Reader.integer 64 s).map fun i => .int64 (Int64.ofInt i)
  | .uint32 =>
    ((Number.readNatural 32 (Reader.dropHash s)).mapError .number).map fun n =>
      .uint32 (UInt32.ofNat n)
  | .float => ((Number.readFloat (Reader.dropHash s)).mapError .number).map .float
  | .flag => ((Number.readTruth s).mapError .number).map .flag

private theorem kind_of_map {ε α : Type} {f : α → Operand} {x : Except ε α} {o : Operand}
    (h : x.map f = .ok o) {k : OperandKind} (hf : ∀ a, (f a).kind = k) : o.kind = k := by
  cases x with
  | error e => cases h
  | ok a =>
    cases h
    exact hf a

/-- An operand that is read has the kind that was asked for. -/
theorem Operand.kind_of_read {k : OperandKind} {s : Bytes} {o : Operand}
    (h : Operand.read k s = .ok o) : o.kind = k := by
  cases k <;> (rw [Operand.read] at h; exact kind_of_map h fun _ => rfl)

end ScalableVector
