import ScalableVector.Encoding.Field

/-!
# Sinks

Instruction words go to a sink, which appends them one after the other and knows its position in
bytes. The simplest sink is a log of the words; another one collects them for an assembler.
-/

namespace ScalableVector

/-- The bytes of a word, the lowest first. -/
def Word.bytes (w : Word) : Bytes :=
  [.ofBitVec (w.extractLsb' 0 8), .ofBitVec (w.extractLsb' 8 8), .ofBitVec (w.extractLsb' 16 8),
    .ofBitVec (w.extractLsb' 24 8)]

def Word.text (w : Word) : String := Text.hexadecimal 8 w.toNat

/-- Values that instruction words can be written to. -/
class Sink (σ : Type) where
  position : σ → Int
  append : σ → Word → σ

structure WordLog where
  words : Array Word
  deriving DecidableEq

namespace WordLog

def empty : WordLog := ⟨#[]⟩

def bytes (l : WordLog) : Bytes := l.words.toList.flatMap Word.bytes

instance : Sink WordLog where
  position l := 4 * l.words.size
  append l w := ⟨l.words.push w⟩

end WordLog

/-!
## Words for an assembler

Words can be handed to an assembler, one directive for each. An assembler takes the first directive
for the start of a function, which has no code, and may align the end of the function; what it adds
there is cut off.
-/

inductive Directive
  | nothing
  | word (w : Word)
  deriving DecidableEq

/-- The directives for an assembler, and how many words are among them. -/
structure AssemblySink where
  directives : Array Directive
  count : Nat
  deriving DecidableEq

namespace AssemblySink

def new : AssemblySink := ⟨#[.nothing], 0⟩

instance : Sink AssemblySink where
  position s := 4 * s.count
  append s w := ⟨s.directives.push (.word w), s.count + 1⟩

structure ShortCode where
  length : Nat
  count : Nat
  deriving DecidableEq, Repr

def ShortCode.message (e : ShortCode) : String :=
  "BUG: assembled " ++ Text.decimal e.length ++ " bytes for " ++ Text.decimal e.count ++ " words"

/-- The machine code of all words, as an assembler makes it. -/
def assemble (assembler : List Directive → Bytes) (s : AssemblySink) : Except ShortCode Bytes :=
  let code := assembler s.directives.toList
  if code.length < 4 * s.count then .error ⟨code.length, s.count⟩
  else .ok (code.take (4 * s.count))

end AssemblySink

end ScalableVector
