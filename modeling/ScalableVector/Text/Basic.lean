/-!
# Byte texts

Input texts are lists of bytes and need not be valid UTF-8. They are cut into characters and stray
bytes, trimmed of white space, and cut at commas; numbers are written with digits.
-/

namespace ScalableVector

abbrev Bytes := List UInt8

def Bytes.ofString (s : String) : Bytes := s.toByteArray.data.toList

namespace Text

/-- A piece of a text: a character, or a byte at which no character starts. -/
inductive Glyph
  | char (c : Char)
  | stray (b : UInt8)
  deriving DecidableEq

def isTail (b : UInt8) : Bool := 0x80 ≤ b && b ≤ 0xBF

def tailBits (b : UInt8) : Nat := b.toNat % 64

def pair? (a : UInt8) : Bytes → Option Char
  | b :: _ =>
    if 0xC2 ≤ a && a ≤ 0xDF && isTail b then
      some (Char.ofNat (a.toNat % 32 * 64 + tailBits b))
    else none
  | _ => none

/-- The character of a three-byte sequence; surrogates and long forms of smaller code points are
refused. -/
def triple? (a : UInt8) : Bytes → Option Char
  | b :: c :: _ =>
    let n := a.toNat % 16 * 4096 + tailBits b * 64 + tailBits c
    if 0xE0 ≤ a && a ≤ 0xEF && isTail b && isTail c && 0x800 ≤ n
        && !(0xD800 ≤ n && n ≤ 0xDFFF) then
      some (Char.ofNat n)
    else none
  | _ => none

def quad? (a : UInt8) : Bytes → Option Char
  | b :: c :: d :: _ =>
    let n := a.toNat % 8 * 262144 + tailBits b * 4096 + tailBits c * 64 + tailBits d
    if 0xF0 ≤ a && a ≤ 0xF4 && isTail b && isTail c && isTail d && 0x10000 ≤ n
        && n ≤ 0x10FFFF then
      some (Char.ofNat n)
    else none
  | _ => none

/-- The glyph that starts with byte `a` before the text `s`, and how many bytes of `s` it takes. -/
def firstGlyph (a : UInt8) (s : Bytes) : Glyph × Nat :=
  if a < 0x80 then (.char (Char.ofNat a.toNat), 0)
  else
    match pair? a s, triple? a s, quad? a s with
    | some c, _, _ => (.char c, 1)
    | _, some c, _ => (.char c, 2)
    | _, _, some c => (.char c, 3)
    | _, _, _ => (.stray a, 0)

/-- Cuts a text into glyphs after skipping the bytes that belong to the glyph before it. -/
def glyphsAfter : Nat → Bytes → List Glyph
  | _, [] => []
  | k + 1, _ :: s => glyphsAfter k s
  | 0, a :: s => (firstGlyph a s).1 :: glyphsAfter (firstGlyph a s).2 s

def glyphs (s : Bytes) : List Glyph := glyphsAfter 0 s

def Glyph.bytes : Glyph → Bytes
  | .char c => String.utf8EncodeChar c
  | .stray b => [b]

def ofGlyphs (gs : List Glyph) : Bytes := gs.flatMap Glyph.bytes

def Glyph.shown : Glyph → Char
  | .char c => c
  | .stray _ => '\ufffd'

def display (s : Bytes) : String := String.ofList ((glyphs s).map Glyph.shown)

/-!
## White space

The characters with the property White_Space of Unicode, and texts trimmed of them at both ends.
A stray byte is never white space.
-/

def blankRuns : List (Nat × Nat) :=
  [(0x9, 0xd), (0x20, 0x20), (0x85, 0x85), (0xa0, 0xa0), (0x1680, 0x1680), (0x2000, 0x200a),
   (0x2028, 0x2029), (0x202f, 0x202f), (0x205f, 0x205f), (0x3000, 0x3000)]

def isBlank (c : Char) : Bool :=
  blankRuns.any fun run => run.1 ≤ c.toNat && c.toNat ≤ run.2

def Glyph.isBlank : Glyph → Bool
  | .char c => Text.isBlank c
  | .stray _ => false

def trimGlyphs (p : Glyph → Bool) (gs : List Glyph) : List Glyph :=
  ((gs.dropWhile p).reverse.dropWhile p).reverse

def trim (s : Bytes) : Bytes := ofGlyphs (trimGlyphs Glyph.isBlank (glyphs s))

/-!
## Digits of numbers

Decimal and hexadecimal texts of numbers, with leading zeros up to a least width.
-/

def decimal (n : Nat) : String := String.ofList (Nat.toDigits 10 n)

def signedDecimal : Int → String
  | .ofNat n => decimal n
  | .negSucc n => "-" ++ decimal (n + 1)

def padZeros (width : Nat) (digits : List Char) : List Char :=
  List.replicate (width - digits.length) '0' ++ digits

def hexadecimal (width n : Nat) : String := String.ofList (padZeros width (Nat.toDigits 16 n))

/-!
## Parts of a text

Operands are separated by commas that stand outside of brackets. White space around a part is
dropped. A text without a comma that holds nothing but white space has no parts.
-/

def opens (c : UInt8) : Bool := c == 0x5b || c == 0x7b

def closes (c : UInt8) : Bool := c == 0x5d || c == 0x7d

def depthAfter (depth : Int) (c : UInt8) : Int :=
  if opens c then depth + 1 else if closes c then depth - 1 else depth

/-- Cuts a text at the commas of depth zero, the text before it having the given depth. The first
part is that which the text continues. -/
def cut : Int → Bytes → Bytes × List Bytes
  | _, [] => ([], [])
  | depth, c :: s =>
    if c = 0x2c ∧ depth = 0 then
      let (first, rest) := cut depth s
      ([], first :: rest)
    else
      let (first, rest) := cut (depthAfter depth c) s
      (c :: first, rest)

def parts (s : Bytes) : List Bytes :=
  match cut 0 s with
  | (only, []) => if (trim only).isEmpty then [] else [trim only]
  | (first, rest) => trim first :: rest.map trim

end Text

end ScalableVector
