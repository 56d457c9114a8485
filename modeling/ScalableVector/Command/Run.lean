import ScalableVector.Command.Task
import ScalableVector.Listing.Basic
import ScalableVector.Segment.Basic

/-!
# Running the program

What the program prints and writes for given arguments and inputs. Encoding is all or nothing: if an
input fails, no word is printed or written, and the first failure is reported.
-/

namespace ScalableVector

/-- What the program can read: standard input, and by its name the content of a file, or else the
reason why there is none. -/
structure Inputs where
  standard : Bytes
  files : Bytes → Except String Bytes

/-- What the program leaves behind: its exit code, what it printed, and the file that it wrote. -/
structure Outcome where
  exitCode : Nat
  output : String
  errors : String
  written : Option (Bytes × Bytes)

inductive InputFailure
  | unreadable (reason : String)
  | listing (title : Bytes) (failure : Listing.Failure)
  deriving DecidableEq

def InputFailure.message : InputFailure → String
  | .unreadable reason => "error reading listing: " ++ reason
  | .listing title failure => failure.message title

namespace Inputs

def standardTitle : Bytes := Bytes.ofString "<stdin>"

def title (name : Bytes) : Bytes := if name = standardInputName then standardTitle else name

/-- The text of an input, and what can be read after it: standard input can be read once. -/
def take (i : Inputs) (name : Bytes) : Except String Bytes × Inputs :=
  if name = standardInputName then (.ok i.standard, ⟨[], i.files⟩) else (i.files name, i)

variable {σ : Type} [Sink σ]

def encode (i : Inputs) (e : Emitter σ) : List Bytes → Emitter σ × Option InputFailure
  | [] => (e, none)
  | name :: names =>
    match i.take name with
    | (.error reason, _) => (e, some (.unreadable reason))
    | (.ok text, i) =>
      match Listing.encode e text with
      | (e, some failure) => (e, some (.listing (title name) failure))
      | (e, none) => encode i e names

end Inputs

/-- The word with the given bytes, the lowest first. -/
def Word.ofBytes (a b c d : UInt8) : Word :=
  d.toBitVec ++ c.toBitVec ++ b.toBitVec ++ a.toBitVec

namespace Dump

def line (offset : Nat) (w : Word) : List Char :=
  (Text.hexadecimal 4 offset).toList ++ ':' :: ' ' :: w.text.toList

/-- The dump of bytes, the first of which has the given offset. Four bytes at a time are a word;
less than four at the end are not shown. -/
def ofBytes (offset : Nat) : Bytes → List Char
  | a :: b :: c :: d :: rest =>
    line offset (Word.ofBytes a b c d) ++ '\n' :: ofBytes (offset + 4) rest
  | _ => []

end Dump

namespace Outcome

def printed (text : String) : Outcome := ⟨0, text, "", none⟩

def failed (log message : String) : Outcome := ⟨1, "", log ++ message ++ "\n", none⟩

end Outcome

namespace EncodeOrder

/-- The emitter that an order starts with. It writes to a segment, for which there is memory. -/
def emitter (o : EncodeOrder) : Emitter SegmentSink :=
  Emitter.new ⟨o.features, o.verbose⟩ (.fresh .unlimited)

def run (o : EncodeOrder) (i : Inputs) : Outcome :=
  match i.encode o.emitter o.inputs with
  | (e, some failure) => .failed (Trace.text e.events.toList) failure.message
  | (e, none) =>
    let log := Trace.text e.events.toList
    let bytes := e.sink.bytes
    if o.output.isEmpty then ⟨0, String.ofList (Dump.ofBytes 0 bytes), log, none⟩
    else ⟨0, "", log, some (o.output, bytes)⟩

end EncodeOrder

def Task.run (i : Inputs) : Except UsageError Task → Outcome
  | .error error => .failed "" error.message
  | .ok (.print text) => .printed text
  | .ok (.encode order) => order.run i

def runProgram (e : Environment) (arguments : List Bytes) (i : Inputs) : Outcome :=
  Task.run i (Task.ofArguments e arguments)

end ScalableVector
