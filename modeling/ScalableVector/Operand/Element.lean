import ScalableVector.Text.Basic

/-!
# Element sizes

The width of the lanes a vector is divided into. The code of a size is the number that most
encodings hold: 0 to 4 for 8 to 128 bits. Codes above 4 name no size and are refused wherever a
size is used.
-/

namespace ScalableVector

structure ElementSize where
  code : UInt8
  deriving DecidableEq, Repr

namespace ElementSize

def byte : ElementSize := ⟨0⟩
def half : ElementSize := ⟨1⟩
def single : ElementSize := ⟨2⟩
def double : ElementSize := ⟨3⟩
def quad : ElementSize := ⟨4⟩

end ElementSize

/-- A choice of element sizes, in the order in which messages list them. -/
abbrev ElementSizes := List ElementSize

namespace ElementSizes

def every : ElementSizes := [.byte, .half, .single, .double, .quad]

def plain : ElementSizes := [.byte, .half, .single, .double]

def wide : ElementSizes := [.half, .single, .double]

def narrow : ElementSizes := [.byte, .half, .single]

def floating : ElementSizes := [.half, .single, .double]

def large : ElementSizes := [.single, .double]

end ElementSizes

namespace ElementSize

/-- The width in bits as a 32-bit number: zero once the code shifts it out. -/
def bits (s : ElementSize) : Nat := (8 <<< s.code.toNat) % 0x100000000

def bytes (s : ElementSize) : Nat := (1 <<< s.code.toNat) % 0x100000000

def text (s : ElementSize) : String :=
  if quad.code < s.code then "ElementSize(" ++ Text.decimal s.code.toNat ++ ")"
  else Text.decimal s.bits ++ "-bit"

def suffixes : List (ElementSize × String) :=
  [(byte, "b"), (half, "h"), (single, "s"), (double, "d"), (quad, "q")]

def suffix (s : ElementSize) : String := (suffixes.lookup s).getD "?"

def ofSuffix? (s : Bytes) : Option ElementSize :=
  (suffixes.find? fun entry => Bytes.ofString entry.2 = s).map Prod.fst

def ofWidth? (s : Bytes) : Option ElementSize :=
  ElementSizes.every.find? fun size => Bytes.ofString (Text.decimal size.bits) = s

end ElementSize

/-!
## Rotations, patterns and forms

The small operands that select a variant of an operation. Rotations and patterns are bytes as the
caller gives them.
-/

structure Rotation where
  quarters : UInt8
  deriving DecidableEq, Repr

def Rotation.degrees (r : Rotation) : Nat := r.quarters.toNat * 90

def Rotation.text (r : Rotation) : String := "#" ++ Text.decimal r.degrees

/-- Which of the two readings an operation has whose first source is also its destination. -/
inductive Form
  | destructive
  | constructive
  deriving DecidableEq, Repr

def Form.text : Form → String
  | .destructive => "destructive"
  | .constructive => "constructive"

/-- The form of a code. Every code but one is destructive. -/
def Form.ofCode (n : UInt8) : Form := if n = 1 then .constructive else .destructive

def Form.code : Form → UInt8
  | .destructive => 0
  | .constructive => 1

structure Pattern where
  code : UInt8
  deriving DecidableEq, Repr

namespace Pattern

def named : List (Pattern × String) :=
  [(⟨0⟩, "pow2"), (⟨1⟩, "vl1"), (⟨2⟩, "vl2"), (⟨3⟩, "vl3"), (⟨4⟩, "vl4"), (⟨5⟩, "vl5"),
    (⟨6⟩, "vl6"), (⟨7⟩, "vl7"), (⟨8⟩, "vl8"), (⟨9⟩, "vl16"), (⟨10⟩, "vl32"), (⟨11⟩, "vl64"),
    (⟨12⟩, "vl128"), (⟨13⟩, "vl256"), (⟨29⟩, "mul4"), (⟨30⟩, "mul3"), (⟨31⟩, "all")]

def text (p : Pattern) : String := (named.lookup p).getD ("#" ++ Text.decimal p.code.toNat)

def ofName? (s : Bytes) : Option Pattern :=
  (named.find? fun entry => Bytes.ofString entry.2 = s).map Prod.fst

end Pattern

end ScalableVector
