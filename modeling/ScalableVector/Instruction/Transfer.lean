import ScalableVector.Instruction.Basic

/-!
# Loads and stores

Registers are loaded whole, contiguously under a predicate, or several at a time with their elements
interleaved. Offsets count vector lengths, or are general registers.
-/

namespace ScalableVector.Transfer

/-- A contiguous load or store: the element sizes it has, each with its code, and the opcodes of
the forms with a register offset and with an immediate offset. -/
structure Access where
  name : String
  mnemonic : String
  predicate : OperandKind
  sizes : List (ElementSize × Nat)
  registerOpcode : Word
  immediateOpcode : Word

namespace Access

def checks (a : Access) : List Check :=
  [.size 0 (a.sizes.map Prod.fst), .register 1, .governing 2, .wide 3]

def fields (a : Access) : List Field :=
  [⟨.select [0] (a.sizes.map fun entry => ([entry.1], entry.2)), [⟨0, none, 21⟩]⟩, .register 1 0,
    .governing 2, .register 3 5]

def registerEncoding (a : Access) : Encoding :=
  ⟨a.checks ++ [.offset 4], a.registerOpcode, a.fields ++ [.register 4 16]⟩

def immediateEncoding (a : Access) : Encoding :=
  ⟨a.checks ++ [.bounds "offset" 4 (-8) 7], a.immediateOpcode, a.fields ++ [.low 4 4 16]⟩

def withRegister (a : Access) : Instruction :=
  ⟨a.name ++ "Reg", a.mnemonic, [.element, .vector, a.predicate, .general, .general], .empty,
    .fixed a.registerEncoding⟩

def withImmediate (a : Access) : Instruction :=
  ⟨a.name ++ "Imm", a.mnemonic, [.element, .vector, a.predicate, .general, .int32], .empty,
    .fixed a.immediateEncoding⟩

def withAddress (a : Access) : Instruction :=
  ⟨a.name, a.mnemonic, [.element, .vector, a.predicate, .address], .empty,
    .byAddress 3 a.registerEncoding a.immediateEncoding⟩

def instructions (a : Access) : List Instruction :=
  [a.withImmediate, a.withRegister, a.withAddress]

end Access

def load (name mnemonic : String) (sizes : List (ElementSize × Nat)) : Access :=
  ⟨name, mnemonic, .zeroing, sizes, 0xa4004000, 0xa400a000⟩

def store (name mnemonic : String) (sizes : List (ElementSize × Nat)) : Access :=
  ⟨name, mnemonic, .plain, sizes, 0xe4004000, 0xe400e000⟩

def bytes : List (ElementSize × Nat) :=
  [(.byte, 0b0000), (.half, 0b0001), (.single, 0b0010), (.double, 0b0011)]

def halves : List (ElementSize × Nat) :=
  [(.half, 0b0101), (.single, 0b0110), (.double, 0b0111)]

def words : List (ElementSize × Nat) := [(.single, 0b1010), (.double, 0b1011)]

def doubles : List (ElementSize × Nat) := [(.double, 0b1111)]

def signedBytes : List (ElementSize × Nat) :=
  [(.half, 0b1110), (.single, 0b1101), (.double, 0b1100)]

def signedHalves : List (ElementSize × Nat) := [(.single, 0b1001), (.double, 0b1000)]

def signedWords : List (ElementSize × Nat) := [(.double, 0b0100)]

def accesses : List Access :=
  [load "Ld1b" "ld1b" bytes, load "Ld1sb" "ld1sb" signedBytes, load "Ld1h" "ld1h" halves,
    load "Ld1sh" "ld1sh" signedHalves, load "Ld1w" "ld1w" words,
    load "Ld1sw" "ld1sw" signedWords, load "Ld1d" "ld1d" doubles, store "St1b" "st1b" bytes,
    store "St1h" "st1h" halves, store "St1w" "st1w" words, store "St1d" "st1d" doubles]

/-- Loads and stores of `count` consecutive registers. The offset is a multiple of their number. -/
def structured (count : Nat) (predicate : OperandKind) (entries : List Entry) : Family where
  signature := List.replicate count .vector ++ [predicate, .general, .int32]
  requirement := .empty
  checks := (List.range count).map .register ++
    [.sequential (List.range count), .governing count, .wide (count + 1),
      .bounds "offset" (count + 2) (-8 * count) (7 * count),
      .multiple "offset" (count + 2) count]
  fields := [.register 0 0, .governing count, .register (count + 1) 5,
    ⟨.quotient (count + 2) count, [⟨0, some 4, 16⟩]⟩]
  entries

def whole (register : OperandKind) (entries : List Entry) : Family where
  signature := [register, .general, .int32]
  requirement := .empty
  checks := [.register 0, .wide 1, .bounds "offset" 2 (-256) 255]
  fields := [.register 0 0, .register 1 5, ⟨.operand 2, [⟨3, some 6, 16⟩, ⟨0, some 3, 10⟩]⟩]
  entries

def families : List Family :=
  [structured 2 .zeroing
      [⟨"Ld2b", "ld2b", 0xa420e000⟩, ⟨"Ld2h", "ld2h", 0xa4a0e000⟩,
        ⟨"Ld2w", "ld2w", 0xa520e000⟩, ⟨"Ld2d", "ld2d", 0xa5a0e000⟩],
    structured 3 .zeroing
      [⟨"Ld3b", "ld3b", 0xa440e000⟩, ⟨"Ld3h", "ld3h", 0xa4c0e000⟩,
        ⟨"Ld3w", "ld3w", 0xa540e000⟩, ⟨"Ld3d", "ld3d", 0xa5c0e000⟩],
    structured 4 .zeroing
      [⟨"Ld4b", "ld4b", 0xa460e000⟩, ⟨"Ld4h", "ld4h", 0xa4e0e000⟩,
        ⟨"Ld4w", "ld4w", 0xa560e000⟩, ⟨"Ld4d", "ld4d", 0xa5e0e000⟩],
    structured 2 .plain
      [⟨"St2b", "st2b", 0xe430e000⟩, ⟨"St2h", "st2h", 0xe4b0e000⟩,
        ⟨"St2w", "st2w", 0xe530e000⟩, ⟨"St2d", "st2d", 0xe5b0e000⟩],
    structured 3 .plain
      [⟨"St3b", "st3b", 0xe450e000⟩, ⟨"St3h", "st3h", 0xe4d0e000⟩,
        ⟨"St3w", "st3w", 0xe550e000⟩, ⟨"St3d", "st3d", 0xe5d0e000⟩],
    structured 4 .plain
      [⟨"St4b", "st4b", 0xe470e000⟩, ⟨"St4h", "st4h", 0xe4f0e000⟩,
        ⟨"St4w", "st4w", 0xe570e000⟩, ⟨"St4d", "st4d", 0xe5f0e000⟩],
    whole .plain [⟨"LdrP", "ldr", 0x85800000⟩],
    whole .vector [⟨"LdrZ", "ldr", 0x85804000⟩]]

end ScalableVector.Transfer
