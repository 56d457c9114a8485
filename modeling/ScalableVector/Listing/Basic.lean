import ScalableVector.Emitter.Basic
import ScalableVector.Instruction.Catalogue
import ScalableVector.Operand.Reader

/-!
# Listings

The lines of a listing are encoded in order on one emitter.
-/

namespace ScalableVector

/-!
## Lines of a listing

A line holds the name of an instruction and its operands. What follows two slashes is a comment, and
white space at both ends has no meaning.
-/

inductive LineError
  | unknownInstruction (name : Bytes)
  | operandCount (name : Bytes) (expected actual : Nat)
  | operand (name : Bytes) (position : Nat) (error : ReadError)
  deriving DecidableEq

namespace LineError

def message : LineError → String
  | unknownInstruction name => "unknown instruction " ++ Text.quote name
  | operandCount name expected actual =>
    Text.display name ++ " takes " ++ Text.decimal expected ++ " operands, got " ++
      Text.decimal actual
  | operand name position error =>
    Text.display name ++ " operand " ++ Text.decimal position ++ ": " ++ error.message

def fault? : LineError → Option Number.Fault
  | operand _ _ error => error.fault?
  | _ => none

end LineError

namespace Line

def dropComment : Bytes → Bytes
  | [] => []
  | [c] => [c]
  | c :: d :: s => if c = 0x2f ∧ d = 0x2f then [] else c :: dropComment (d :: s)

def endsName (c : UInt8) : Bool := c == 0x20 || c == 0x09

def name (s : Bytes) : Bytes := s.takeWhile fun c => !endsName c

def operands (s : Bytes) : List Bytes := Text.parts ((s.dropWhile fun c => !endsName c).drop 1)

/-- Reads operands of the given kinds; fails with the position of the first text that is none, the
first position being `position`. -/
def readOperands (position : Nat) : (kinds : List OperandKind) → List Bytes →
    Except (Nat × ReadError) { ops : List Operand // ops.map Operand.kind = kinds }
  | [], _ => .ok ⟨[], rfl⟩
  | kind :: kinds, texts =>
    match h : Operand.read kind (texts.headD []) with
    | .error e => .error (position, e)
    | .ok o =>
      match readOperands (position + 1) kinds texts.tail with
      | .error e => .error e
      | .ok ops =>
        .ok ⟨o :: ops.1, by rw [List.map_cons, Operand.kind_of_read h, ops.2]⟩

def callOf (typed : Bytes) (i : Instruction) (texts : List Bytes) : Except LineError Call :=
  if texts.length ≠ i.signature.length then
    .error (.operandCount typed i.signature.length texts.length)
  else
    match readOperands 1 i.signature texts with
    | .error (position, e) => .error (.operand typed position e)
    | .ok ops => .ok ⟨i, ops.1, ops.2⟩

def call (s : Bytes) : Except LineError Call :=
  match Catalogue.findLowered? (Text.lower (name s)) with
  | none => .error (.unknownInstruction (name s))
  | some i => callOf (name s) i (operands s)

/-- The call of a line, if it holds one. -/
def parse (line : Bytes) : Except LineError (Option Call) :=
  let s := Text.trim (dropComment line)
  if s.isEmpty then .ok none else (call s).map some

end Line

/-! ## Listings -/

inductive ListingError
  | line (error : LineError)
  | rejected (rejection : Rejection)
  deriving DecidableEq

def ListingError.message : ListingError → String
  | .line error => error.message
  | .rejected rejection => rejection.message

namespace Listing

variable {σ : Type} [Sink σ]

def step (e : Emitter σ) (line : Bytes) : Emitter σ × Option ListingError :=
  match Line.parse line with
  | .error error => (e, some (.line error))
  | .ok none => (e, none)
  | .ok (some call) =>
    let e := e.emit call
    (e, e.rejection.map .rejected)

def lineLimit : Nat := 65535

/-- What a listing can fail with: a line, by its number, or a line that is too long. -/
inductive Failure
  | line (number : Nat) (error : ListingError)
  | lineTooLong
  deriving DecidableEq

def Failure.message (input : Bytes) : Failure → String
  | .line number error =>
    Text.display input ++ ":" ++ Text.decimal number ++ ": " ++ error.message
  | .lineTooLong => Text.display input ++ ": bufio.Scanner: token too long"

def dropReturn (line : Bytes) : Bytes :=
  if line.getLast? = some 0x0d then line.dropLast else line

/-- The lines of a text. A line feed at the end starts no further line. -/
def lines (text : Bytes) : List Bytes :=
  let all := text.splitOn 0x0a
  if all.getLast? = some [] then all.dropLast else all

def encodeLines (number : Nat) (e : Emitter σ) : List Bytes → Emitter σ × Option Failure
  | [] => (e, none)
  | line :: rest =>
    if lineLimit < line.length then (e, some .lineTooLong)
    else
      match step e (dropReturn line) with
      | (e, some error) => (e, some (.line number error))
      | (e, none) => encodeLines (number + 1) e rest

def encode (e : Emitter σ) (text : Bytes) : Emitter σ × Option Failure :=
  encodeLines 1 e (lines text)

end Listing

end ScalableVector
