import ScalableVector.Text.Quoted

/-!
# Faults of number texts

A text that is read as a number is malformed, or names a number outside of the type that is asked
for. The message names the reading, quotes the text and tells which of the two it is.
-/

namespace ScalableVector

namespace Number

inductive Fault
  | malformed
  | overflow
  deriving DecidableEq, Repr

inductive Reading
  | integer
  | natural
  | float
  | truth
  deriving DecidableEq, Repr

def Reading.name : Reading → String
  | .integer => "ParseInt"
  | .natural => "ParseUint"
  | .float => "ParseFloat"
  | .truth => "ParseBool"

def Fault.words : Fault → String
  | .malformed => "invalid syntax"
  | .overflow => "value out of range"

structure Error where
  reading : Reading
  text : Bytes
  fault : Fault
  deriving DecidableEq

def Error.message (e : Error) : String :=
  "strconv." ++ e.reading.name ++ ": parsing " ++ Text.quote e.text ++ ": " ++ e.fault.words

/-!
## Integer literals

Literals with an optional base mark: `0x`, `0o` and `0b`, or a leading zero for octal. Underscores
may stand between digits and after a base mark. The digits are read from the left, so a number that
grows too large is reported before a wrong digit further right.
-/

def isDigit (c : UInt8) : Bool := 0x30 ≤ c && c ≤ 0x39

/-- The byte is an ASCII letter, or becomes one when put in lower case. -/
def isLetter (c : UInt8) : Bool := 0x61 ≤ c ||| 0x20 && c ||| 0x20 ≤ 0x7a

/-- The byte is the given lower-case ASCII letter in either case. -/
def isMark (mark c : UInt8) : Bool := c ||| 0x20 == mark

def digitValue? (c : UInt8) : Option Nat :=
  if isDigit c then some (c.toNat - 0x30)
  else if isLetter c then some ((c ||| 0x20).toNat - 0x61 + 10)
  else none

def digitIn? (base : Nat) (c : UInt8) : Option Nat :=
  (digitValue? c).filter (· < base)

/-- Appends digits of `base` to the number `n`; no number on the way may exceed `max`. Underscores
are skipped if `separated` holds. -/
def appendDigits (base max : Nat) (separated : Bool) : Nat → Bytes → Except Fault Nat
  | n, [] => .ok n
  | n, c :: s =>
    if separated && c == 0x5f then appendDigits base max separated n s
    else
      match digitIn? base c with
      | none => .error .malformed
      | some d =>
        if max < n * base + d then .error .overflow
        else appendDigits base max separated (n * base + d) s

def dropSign : Bytes → Bytes
  | c :: s => if c == 0x2b || c == 0x2d then s else c :: s
  | [] => []

inductive Preceding
  | start
  | digit
  | underscore
  | other
  deriving DecidableEq

def separatedAfter (hex : Bool) : Preceding → Bytes → Bool
  | last, [] => last != .underscore
  | last, c :: s =>
    if isDigit c || (hex && (digitIn? 16 c).isSome) then separatedAfter hex .digit s
    else if c == 0x5f then last == .digit && separatedAfter hex .underscore s
    else last != .underscore && separatedAfter hex .other s

/-- The underscores of a number text stand between digits; a base mark counts as a digit. -/
def wellSeparated (s : Bytes) : Bool :=
  match dropSign s with
  | 0x30 :: c :: t =>
    if isMark 0x62 c || isMark 0x6f c || isMark 0x78 c then
      separatedAfter (isMark 0x78 c) .digit t
    else separatedAfter false .start (0x30 :: c :: t)
  | t => separatedAfter false .start t

def splitBase : Bytes → Nat × Bytes
  | 0x30 :: c :: d :: s =>
    if isMark 0x62 c then (2, d :: s)
    else if isMark 0x6f c then (8, d :: s)
    else if isMark 0x78 c then (16, d :: s)
    else (8, c :: d :: s)
  | 0x30 :: s => (8, s)
  | s => (10, s)

def literal (max : Nat) (s : Bytes) : Except Fault Nat :=
  if s.isEmpty then .error .malformed
  else
    match appendDigits (splitBase s).1 max true 0 (splitBase s).2 with
    | .error f => .error f
    | .ok n => if s.contains 0x5f && !wellSeparated s then .error .malformed else .ok n

def readNatural (bits : Nat) (s : Bytes) : Except Error Nat :=
  (literal ((1 <<< bits) - 1) s).mapError fun f => ⟨.natural, s, f⟩

def isNegative (s : Bytes) : Bool := s.head? == some 0x2d

def signedLiteral (bits : Nat) (s : Bytes) : Except Fault Int :=
  match literal ((1 <<< bits) - 1) (dropSign s) with
  | .error f => .error f
  | .ok n =>
    if isNegative s then if 1 <<< (bits - 1) < n then .error .overflow else .ok (-n)
    else if 1 <<< (bits - 1) ≤ n then .error .overflow else .ok n

def readInteger (bits : Nat) (s : Bytes) : Except Error Int :=
  (signedLiteral bits s).mapError fun f => ⟨.integer, s, f⟩

def digitsValue? (s : Bytes) : Option Nat :=
  if s.isEmpty || !s.all isDigit then none
  else some (s.foldl (fun n c => n * 10 + (c.toNat - 0x30)) 0)

def signedDigits? (s : Bytes) : Option Int :=
  (digitsValue? (dropSign s)).map fun n => if isNegative s then -n else n

def truthTexts : List (String × Bool) :=
  [("1", true), ("t", true), ("T", true), ("true", true), ("TRUE", true), ("True", true),
    ("0", false), ("f", false), ("F", false), ("false", false), ("FALSE", false),
    ("False", false)]

def readTruth (s : Bytes) : Except Error Bool :=
  match truthTexts.find? fun entry => Bytes.ofString entry.1 == s with
  | some entry => .ok entry.2
  | none => .error ⟨.truth, s, .malformed⟩

end Number

end ScalableVector
