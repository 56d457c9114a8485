import ScalableVector.Emitter.Sink
import ScalableVector.Instruction.Basic

/-!
# Emitters

An emitter encodes calls, writes their words to a sink, and may keep a trace of what it did. The
first rejection sticks: after it the emitter writes nothing more.
-/

namespace ScalableVector

/-!
## Traces

A trace tells which words were emitted, at which position, and which instruction was rejected. Each
event is one line of `key=value` pairs; a value is quoted unless it is made of harmless characters.
-/

namespace Trace

inductive Event
  | emitted (mnemonic : String) (offset : Int) (word : Word)
  | rejected (rejection : Rejection) (offset : Int)
  deriving DecidableEq

def isHarmless (c : Char) : Bool := c.isAlphanum || "-._/@^+".toList.contains c

def value (s : String) : String :=
  if s.toList.all isHarmless then s else Text.quote (Bytes.ofString s)

def line (message : String) (pairs : List (String × String)) : String :=
  " ".intercalate
    ((("level", "debug") :: ("msg", message) :: pairs).map fun p => p.1 ++ "=" ++ value p.2) ++ "\n"

def Event.text : Event → String
  | .emitted mnemonic offset word =>
    line "emit" [("inst", mnemonic), ("offset", Text.signedDecimal offset),
      ("word", "0x" ++ word.text)]
  | .rejected rejection offset =>
    line "instruction rejected" [("error", rejection.message),
      ("offset", Text.signedDecimal offset)]

def text (events : List Event) : String := String.join (events.map Event.text)

end Trace

/-! ## Emitters -/

structure EmitterOptions where
  features : FeatureSet
  tracing : Bool
  deriving DecidableEq

namespace EmitterOptions

/-- All extensions and no trace. -/
def standard : EmitterOptions := ⟨.all, false⟩

def allowing (o : EmitterOptions) (features : FeatureSet) : EmitterOptions :=
  { o with features }

def traced (o : EmitterOptions) : EmitterOptions := { o with tracing := true }

end EmitterOptions

structure Emitter (σ : Type) where
  options : EmitterOptions
  sink : σ
  rejection : Option Rejection
  events : Array Trace.Event

namespace Emitter

variable {σ : Type} [Sink σ]

def new (options : EmitterOptions) (sink : σ) : Emitter σ := ⟨options, sink, none, #[]⟩

def offset (e : Emitter σ) : Int := Sink.position e.sink

/-- The trace with one more event, if there is a trace. -/
def record (tracing : Bool) (events : Array Trace.Event) (event : Trace.Event) :
    Array Trace.Event :=
  if tracing then events.push event else events

/-- Writes the word of a call, unless the call or an earlier one is rejected. -/
def emit (e : Emitter σ) (c : Call) : Emitter σ :=
  match e with
  | ⟨_, _, some _, _⟩ => e
  | ⟨options, sink, none, events⟩ =>
    match c.encode options.features with
    | .error r =>
      ⟨options, sink, some r, record options.tracing events (.rejected r (Sink.position sink))⟩
    | .ok w =>
      let events := record options.tracing events
        (.emitted c.instruction.mnemonic (Sink.position sink) w)
      ⟨options, Sink.append sink w, none, events⟩

def run (e : Emitter σ) (calls : List Call) : Emitter σ := calls.foldl emit e

end Emitter

end ScalableVector
