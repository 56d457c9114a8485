import ScalableVector.Emitter.Sink
import ScalableVector.Segment.Memory

/-!
# Code segments

A segment is memory of which a part is written. Buffers start at multiples of 16 bytes and write at
the end of the written part; the memory is doubled when it is full.
-/

namespace ScalableVector

/-- Memory for machine code, and how much of it is written. -/
structure Segment where
  memory : Option Memory
  size : Nat
  deriving DecidableEq

structure Buffer where
  offset : Nat
  deriving DecidableEq, Repr

namespace Segment

/-- What is wrong with a request to a segment: the memory refuses, it could not be enlarged for a
write, there is memory already, or a buffer reaches beyond the capacity or ends before it starts. -/
inductive Fault
  | memory (fault : Memory.Fault)
  | growth (fault : Memory.Fault)
  | occupied (length : Nat)
  | bounds
  deriving DecidableEq, Repr

def Fault.message? : Fault → Option String
  | .memory fault | .growth fault => some fault.message
  | .occupied length =>
    some ("code segment already initialized to memory mapping of size " ++ Text.decimal length)
  | .bounds => none

def Fault.isFatal : Fault → Bool
  | .memory fault => fault.isFatal
  | .growth _ | .bounds => true
  | .occupied _ => false

def slice (s : Segment) : Memory := s.memory.getD .nil

def code (s : Segment) : Array UInt8 := s.slice.bytes

def length (s : Segment) : Nat := s.code.size

/-- A segment over a slice, all of whose bytes count as written. -/
def ofSlice (slice : Option Memory) : Segment := ⟨slice, (slice.getD .nil).bytes.size⟩

def empty : Segment := ⟨none, 0⟩

def doubled (length wanted : Nat) : Nat :=
  if _h : 0 < length ∧ length < wanted then doubled (2 * length) wanted else length
termination_by wanted - length

/-- The length that memory grows to. Fresh memory has 65536 bytes at least. -/
def grownLength (length wanted : Nat) : Nat :=
  doubled (if length = 0 then 65536 else length) wanted

def grown (system : System) (memory : Option Memory) (wanted : Nat) :
    Except Memory.Fault (Option Memory) :=
  let m := memory.getD .nil
  if m.bytes.size < wanted then
    (m.remap system (grownLength m.bytes.size wanted)).map some
  else .ok memory

def padding (size : Nat) : Nat := (16 - size % 16) % 16

def openBuffer (system : System) (s : Segment) : Except Fault Buffer × Segment :=
  match s with
  | ⟨memory, size⟩ =>
    match grown system memory (size + padding size) with
    | .error f => (.error (.growth f), ⟨memory, size⟩)
    | .ok memory =>
      let start := size + padding size
      (.ok ⟨start⟩, ⟨memory.map (·.poke size (List.replicate (padding size) 0)), start⟩)

/-- Writes a word at the end. It is counted before the memory is enlarged for it. -/
def writeWord (system : System) (s : Segment) (w : Word) : Except Fault Unit × Segment :=
  match s with
  | ⟨memory, size⟩ =>
    match grown system memory (size + 4) with
    | .error f => (.error (.growth f), ⟨memory, size + 4⟩)
    | .ok memory => (.ok (), ⟨memory.map (·.poke size w.bytes), size + 4⟩)

def writeWords (system : System) : Segment → List Word → Except Fault Unit × Segment
  | s, [] => (.ok (), s)
  | s, w :: ws =>
    match s.writeWord system w with
    | (.error f, s) => (.error f, s)
    | (.ok (), s) => writeWords system s ws

def map (system : System) (s : Segment) (length : Int) : Except Fault Unit × Segment :=
  match s.memory with
  | some m => (.error (.occupied m.bytes.size), s)
  | none =>
    match Memory.map system length with
    | .error f => (.error (.memory f), s)
    | .ok m => (.ok (), ⟨some m, length.toNat⟩)

/-- Releases the memory, up to its capacity. -/
def unmap (system : System) (s : Segment) : Except Fault Unit × Segment :=
  match s.memory with
  | none => (.ok (), s)
  | some m =>
    match m.whole.unmap system with
    | .error f => (.error (.memory f), s)
    | .ok _ => (.ok (), empty)

def protect (system : System) (s : Segment) : Except Fault Unit × Segment :=
  if s.size = 0 then (.ok (), s)
  else
    match s.slice.protect system with
    | .error f => (.error (.memory f), s)
    | .ok _ => (.ok (), s)

def bufferLength (s : Segment) (b : Buffer) : Int := s.size - b.offset

def bufferCapacity (s : Segment) (b : Buffer) : Int := s.length - b.offset

/-- The bytes from the start of a buffer to the end of the written part, which may lie behind the
length of the memory but not behind its capacity. -/
def bufferBytes (s : Segment) (b : Buffer) : Except Fault Bytes :=
  if b.offset ≤ s.size ∧ s.size ≤ s.slice.capacity then
    .ok (s.slice.whole.bytes.extract b.offset s.size).toList
  else .error .bounds

def reset (s : Segment) (b : Buffer) : Segment := ⟨s.memory, b.offset⟩

end Segment

structure SegmentSink where
  system : System
  segment : Segment
  buffer : Buffer

namespace SegmentSink

def fresh (system : System) : SegmentSink := ⟨system, .empty, ⟨0⟩⟩

def bytes (s : SegmentSink) : Bytes :=
  match s.segment.bufferBytes s.buffer with
  | .ok bytes => bytes
  | .error _ => []

instance : Sink SegmentSink where
  position s := s.segment.bufferLength s.buffer
  append
    | ⟨system, segment, buffer⟩, w => ⟨system, (segment.writeWord system w).2, buffer⟩

end SegmentSink

end ScalableVector
