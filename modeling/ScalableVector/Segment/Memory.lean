import ScalableVector.Text.Basic

/-!
# Memory

Slices of memory, which are mapped, enlarged, protected and released. Whether a request is granted,
and what new memory holds, is up to the system.
-/

namespace ScalableVector

inductive Origin
  | plain
  | mapped
  | released
  deriving DecidableEq, Repr

/-- A slice: its bytes, and the spare ones that lie behind them up to its capacity. -/
structure Memory where
  origin : Origin
  bytes : Array UInt8
  spare : Array UInt8
  deriving DecidableEq

inductive Refusal
  | invalid
  | unavailable
  deriving DecidableEq, Repr

/-- The answers of the system to requests. Memory that it gives has the length that was asked for
and nothing behind it. -/
structure System where
  map (length : Nat) : Except Refusal (Vector UInt8 length)
  remap (m : Memory) (length : Nat) : Except Refusal (Vector UInt8 length)
  unmap (m : Memory) : Except Refusal Unit
  protect (m : Memory) : Except Refusal Unit

namespace Memory

inductive Operation
  | map
  | remap
  | unmap
  | protect
  deriving DecidableEq, Repr

def Operation.name : Operation → String
  | .map => "MmapCodeSegment"
  | .remap => "RemapCodeSegment"
  | .unmap => "MunmapCodeSegment"
  | .protect => "MprotectRX"

/-- What is wrong with a request: it is for no memory at all, memory would shrink, or the system
refuses it. -/
inductive Fault
  | zeroLength (operation : Operation)
  | shrinking
  | refused (why : Refusal)
  deriving DecidableEq, Repr

def Fault.message : Fault → String
  | .zeroLength operation => "BUG: " ++ operation.name ++ " with zero length"
  | .shrinking => "BUG: " ++ Operation.remap.name ++ " with size less than code"
  | .refused .invalid => "invalid argument"
  | .refused .unavailable => "cannot allocate memory"

/-- A fault that only a wrong program can cause, and that ends it. -/
def Fault.isFatal : Fault → Bool
  | .zeroLength _ | .shrinking => true
  | .refused _ => false

def nil : Memory := ⟨.plain, #[], #[]⟩

def whole (m : Memory) : Memory := ⟨m.origin, m.bytes ++ m.spare, #[]⟩

def capacity (m : Memory) : Nat := m.whole.bytes.size

/-- The slice is a live mapping up to its end. -/
def IsMapping (m : Memory) : Prop := m.origin = .mapped ∧ m.spare = #[]

instance (m : Memory) : Decidable m.IsMapping :=
  inferInstanceAs (Decidable (m.origin = .mapped ∧ m.spare = #[]))

def ofAnswer {length : Nat} : Except Refusal (Vector UInt8 length) → Except Fault Memory
  | .ok bytes => .ok ⟨.mapped, bytes.toArray, #[]⟩
  | .error why => .error (.refused why)

/-- Asks for new memory. A length that is not positive is refused before the system is asked. -/
def allocate (system : System) (length : Int) : Except Fault Memory :=
  if 0 < length then ofAnswer (system.map length.toNat) else .error (.refused .invalid)

def map (system : System) (length : Int) : Except Fault Memory :=
  if length = 0 then .error (.zeroLength .map) else allocate system length

/-- Enlarges memory. Without any bytes, memory is mapped anew. -/
def remap (system : System) (m : Memory) (length : Int) : Except Fault Memory :=
  if length < m.bytes.size then .error .shrinking
  else if m.bytes.size = 0 then allocate system length
  else ofAnswer (system.remap m length.toNat)

def unmap (system : System) (m : Memory) : Except Fault Memory :=
  if m.bytes.size = 0 then .error (.zeroLength .unmap)
  else
    match system.unmap m with
    | .ok () => .ok { m with origin := .released }
    | .error why => .error (.refused why)

def protect (system : System) (m : Memory) : Except Fault Memory :=
  if m.bytes.size = 0 then .error (.zeroLength .protect)
  else
    match system.protect m with
    | .ok () => .ok m
    | .error why => .error (.refused why)

/-- Replaces bytes from a place on; what does not fit is dropped. -/
def overwrite (bytes : Array UInt8) (start : Nat) : Bytes → Array UInt8
  | [] => bytes
  | b :: rest => overwrite (bytes.setIfInBounds start b) (start + 1) rest

def poke (m : Memory) (start : Nat) (new : Bytes) : Memory :=
  match m with
  | ⟨origin, bytes, spare⟩ => ⟨origin, overwrite bytes start new, spare⟩

def peek (m : Memory) (start stop : Nat) : Bytes := (m.bytes.extract start stop).toList

end Memory

/-- The system that never runs out of memory: new memory is zero, and what is a mapping can be
enlarged and released. -/
def System.unlimited : System where
  map _ := .ok (.replicate _ 0)
  remap m _ :=
    if m.IsMapping then .ok (.ofFn fun k => m.bytes.getD k 0) else .error .invalid
  unmap m := if m.IsMapping then .ok () else .error .invalid
  protect m :=
    match m.origin with
    | .mapped => .ok ()
    | .plain => .error .invalid
    | .released => .error .unavailable

end ScalableVector
