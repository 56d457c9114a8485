import Mathlib.Algebra.Ring.Nat
import ScalableVector.Encoding.Field

/-!
# Codes of several operands

A shift code holds the element size and the amount of a shift, a lane code the element size and an
index. The checks keep both within bounds, and within them the low bits of the code determine the
two. A floating-point immediate is determined by its 8-bit form.
-/

namespace ScalableVector

namespace Shift

theorem sizeFault_eq_none {size : ElementSize} {allowed : ElementSizes} :
    sizeFault size allowed = none ↔ size ∈ allowed := by
  rw [sizeFault]
  split <;> simp_all

theorem boundsFault_eq_none {what : String} {value lo hi : Int} :
    boundsFault what value lo hi = none ↔ lo ≤ value ∧ value ≤ hi := by
  rw [boundsFault]
  split <;> simp_all

theorem fault_eq_none {direction : ShiftDirection} {size : ElementSize} {amount : Int} :
    fault direction size amount = none ↔ size ∈ ElementSizes.plain ∧
      (amounts direction size.bits).1 ≤ amount ∧ amount ≤ (amounts direction size.bits).2 := by
  rw [fault, Option.or_eq_none_iff, sizeFault_eq_none, amountFault, boundsFault_eq_none]

theorem longFault_eq_none {size : ElementSize} {amount : Int} :
    longFault size amount = none ↔ size ∈ ElementSizes.wide ∧
      0 ≤ amount ∧ amount ≤ (sourceWidth size : Int) - 1 := by
  rw [longFault, Option.or_eq_none_iff, sizeFault_eq_none, amountFault, boundsFault_eq_none]
  rfl

/-- The number that the fields of a shift make up. -/
def code (direction : ShiftDirection) (size : ElementSize) (amount : Int) : Int :=
  match direction with
  | .left => size.bits + amount
  | .right => 2 * size.bits - amount

structure Fields.Fits (f : Fields) : Prop where
  tszh : f.tszh.toNat < 4
  tszl : f.tszl.toNat < 4
  imm3 : f.imm3.toNat < 8

theorem Fields.Fits.toNat_value {f : Fields} (h : f.Fits) :
    f.value.toNat = 32 * f.tszh.toNat + 8 * f.tszl.toNat + f.imm3.toNat := by
  obtain ⟨hh, hl, hi⟩ := h
  have hlow : f.tszl.toNat <<< 3 ||| f.imm3.toNat = 8 * f.tszl.toNat + f.imm3.toNat := by
    rw [← Nat.shiftLeft_add_eq_or_of_lt (i := 3) hi, Nat.shiftLeft_eq]
    omega
  have hall : f.tszh.toNat <<< 5 ||| (8 * f.tszl.toNat + f.imm3.toNat) =
      32 * f.tszh.toNat + (8 * f.tszl.toNat + f.imm3.toNat) := by
    rw [← Nat.shiftLeft_add_eq_or_of_lt (i := 5) (by omega), Nat.shiftLeft_eq]
    omega
  have hh32 : f.tszh.toNat <<< 5 < 2 ^ 32 := by rw [Nat.shiftLeft_eq]; omega
  have hl32 : f.tszl.toNat <<< 3 < 2 ^ 32 := by rw [Nat.shiftLeft_eq]; omega
  rw [value, BitVec.toNat_or, BitVec.toNat_or, BitVec.toNat_shiftLeft, BitVec.toNat_shiftLeft,
    Nat.mod_eq_of_lt hh32, Nat.mod_eq_of_lt hl32, Nat.or_assoc, hlow, hall, Nat.add_assoc]

private theorem toNat_and_mask (v : Word) {mask : Word} (k : Nat) (h : mask.toNat = 2 ^ k - 1) :
    (v &&& mask).toNat = v.toNat % 2 ^ k := by
  rw [BitVec.toNat_and, h]
  exact Nat.and_two_pow_sub_one_eq_mod v.toNat k

private theorem toNat_two_or (v : Word) :
    ((0b10 : Word) ||| (v &&& 0b1)).toNat = 2 + v.toNat % 2 := by
  rw [BitVec.toNat_or, toNat_and_mask v 1 rfl, Nat.pow_one]
  rcases Nat.mod_two_eq_zero_or_one v.toNat with h | h <;> rw [h] <;> rfl

private theorem toNat_shiftRight (v : Word) (n : Nat) : (v >>> n).toNat = v.toNat / 2 ^ n := by
  rw [BitVec.toNat_ushiftRight, Nat.shiftRight_eq_div_pow]

theorem split_fits (direction : ShiftDirection) (size : ElementSize) (amount : Word) :
    (split direction size amount).Fits := by
  simp only [split]
  generalize inverse direction size amount = n
  have himm3 : (n &&& 0b111).toNat < 8 := by
    rw [toNat_and_mask n 3 rfl]
    omega
  have htszl : (n >>> 3 &&& 0b11).toNat < 4 := by
    rw [toNat_and_mask (n >>> 3) 2 rfl]
    omega
  have hmarked (k : Nat) : ((0b10 : Word) ||| (n >>> k &&& 0b1)).toNat < 4 := by
    rw [toNat_two_or]
    omega
  have hzero : (0 : Word).toNat < 4 := by decide
  have hone : (0b01 : Word).toNat < 4 := by decide
  split
  · exact ⟨hzero, hone, himm3⟩
  · split
    · exact ⟨hzero, hmarked 3, himm3⟩
    · split
      · exact ⟨hone, htszl, himm3⟩
      · split
        · exact ⟨hmarked 5, htszl, himm3⟩
        · exact ⟨hzero, hzero, himm3⟩

/-- For every element size the fields of the number `n` make up the width and the bits of `n` below
it. -/
private theorem toNat_value_split {direction : ShiftDirection} {size : ElementSize}
    (h : size ∈ ElementSizes.plain) (amount : Word) :
    (split direction size amount).value.toNat =
      size.bits + (inverse direction size amount).toNat % size.bits := by
  rw [(split_fits direction size amount).toNat_value]
  simp only [split]
  generalize inverse direction size amount = n
  have hzero : (0 : Word).toNat = 0 := rfl
  have hone : (0b01 : Word).toNat = 1 := rfl
  have himm3 := @toNat_and_mask n 0b111 3 rfl
  have htszl := @toNat_and_mask (n >>> 3) 0b11 2 rfl
  simp only [ElementSizes.plain, List.mem_cons, List.not_mem_nil, or_false] at h
  rcases h with rfl | rfl | rfl | rfl
  · have hbits : ElementSize.byte.bits = 8 := rfl
    rw [if_pos rfl, hbits, hzero, hone, himm3]
    omega
  · have hbits : ElementSize.half.bits = 16 := rfl
    rw [if_neg (by decide), if_pos rfl, hbits, hzero, toNat_two_or, himm3, toNat_shiftRight]
    omega
  · have hbits : ElementSize.single.bits = 32 := rfl
    rw [if_neg (by decide), if_neg (by decide), if_pos rfl, hbits, hone, htszl, himm3,
      toNat_shiftRight]
    omega
  · have hbits : ElementSize.double.bits = 64 := rfl
    rw [if_neg (by decide), if_neg (by decide), if_neg (by decide), if_pos rfl, hbits,
      toNat_two_or, htszl, himm3, toNat_shiftRight, toNat_shiftRight]
    omega

theorem value_split {direction : ShiftDirection} {size : ElementSize} {amount : Int}
    (h : fault direction size amount = none) :
    ((split direction size (BitVec.ofInt 32 amount)).value.toNat : Int) =
      code direction size amount := by
  obtain ⟨hs, hlo, hhi⟩ := fault_eq_none.mp h
  rw [toNat_value_split hs]
  have hpos : 8 ≤ size.bits ∧ size.bits ≤ 64 := by
    have hall : ∀ s ∈ ElementSizes.plain, 8 ≤ s.bits ∧ s.bits ≤ 64 := by decide
    exact hall size hs
  cases direction with
  | left =>
    have hn : ((inverse .left size (BitVec.ofInt 32 amount)).toNat : Int) = amount := by
      simp only [amounts] at hlo hhi
      rw [inverse, BitVec.toNat_ofInt]
      omega
    simp only [amounts] at hlo hhi
    rw [code, Nat.mod_eq_of_lt (by omega)]
    omega
  | right =>
    have hn : ((inverse .right size (BitVec.ofInt 32 amount)).toNat : Int) =
        2 * size.bits - amount := by
      simp only [amounts] at hlo hhi
      rw [inverse, BitVec.toNat_sub, BitVec.toNat_ofInt, BitVec.toNat_ofNat]
      omega
    simp only [amounts] at hlo hhi
    -- the number lies between the width and twice the width
    have hmod : (inverse .right size (BitVec.ofInt 32 amount)).toNat % size.bits =
        (inverse .right size (BitVec.ofInt 32 amount)).toNat - size.bits := by
      rw [Nat.mod_eq_sub_mod (by omega), Nat.mod_eq_of_lt (by omega)]
    rw [code, hmod]
    omega

theorem split_injective {direction : ShiftDirection} {s t : ElementSize} {m n : Int}
    (hs : fault direction s m = none) (ht : fault direction t n = none)
    (h : split direction s (BitVec.ofInt 32 m) = split direction t (BitVec.ofInt 32 n)) :
    s = t ∧ m = n := by
  have hcode : code direction s m = code direction t n := by
    rw [← value_split hs, ← value_split ht, h]
  rw [fault_eq_none] at hs ht
  obtain ⟨hs, hm⟩ := hs
  obtain ⟨ht, hn⟩ := ht
  have hb : ElementSize.byte.bits = 8 ∧ ElementSize.half.bits = 16 ∧
    ElementSize.single.bits = 32 ∧ ElementSize.double.bits = 64 := by decide
  simp only [ElementSizes.plain, List.mem_cons, List.not_mem_nil, or_false] at hs ht
  cases direction <;> simp only [code, amounts] at hcode hm hn <;>
    rcases hs with rfl | rfl | rfl | rfl <;> rcases ht with rfl | rfl | rfl | rfl <;>
    simp only [hb] at hcode hm hn <;>
    first | exact ⟨rfl, by omega⟩ | omega

/-- The sizes of a widening shift, each with the width of its sources and its marker. -/
theorem cases_of_wide {size : ElementSize} (h : size ∈ ElementSizes.wide) :
    size = .half ∧ sourceWidth size = 8 ∧ marker size = (1 : Word) <<< 19 ∨
      size = .single ∧ sourceWidth size = 16 ∧ marker size = (1 : Word) <<< 20 ∨
      size = .double ∧ sourceWidth size = 32 ∧ marker size = (1 : Word) <<< 22 := by
  have hall : ∀ s ∈ ElementSizes.wide,
      s = .half ∧ sourceWidth s = 8 ∧ marker s = (1 : Word) <<< 19 ∨
        s = .single ∧ sourceWidth s = 16 ∧ marker s = (1 : Word) <<< 20 ∨
        s = .double ∧ sourceWidth s = 32 ∧ marker s = (1 : Word) <<< 22 := by decide
  exact hall size h

private theorem toNat_bit_or {k : Nat} (hk : k < 32) {v : Word} (hv : v.toNat < 2 ^ k) :
    (((1 : Word) <<< k) ||| v).toNat = 2 ^ k + v.toNat := by
  have hone : (1 : Word).toNat = 1 := rfl
  have hpow : 1 <<< k < 2 ^ 32 := by
    rw [Nat.one_shiftLeft]
    exact Nat.pow_lt_pow_right (by decide) hk
  rw [BitVec.toNat_or, BitVec.toNat_shiftLeft, hone, Nat.mod_eq_of_lt hpow,
    ← Nat.shiftLeft_add_eq_or_of_lt hv, Nat.one_shiftLeft]

theorem toNat_longBits {size : ElementSize} {amount : Int} (h : longFault size amount = none) :
    ((longBits size (BitVec.ofInt 32 amount)).toNat : Int) =
      (marker size).toNat + amount * 65536 := by
  obtain ⟨hs, h0, hlt⟩ := longFault_eq_none.mp h
  have hle : sourceWidth size ≤ 32 := by
    rcases cases_of_wide hs with ⟨-, hw, -⟩ | ⟨-, hw, -⟩ | ⟨-, hw, -⟩ <;> omega
  have hv : ((BitVec.ofInt 32 amount <<< 16).toNat : Int) = amount * 65536 := by
    rw [BitVec.toNat_shiftLeft, BitVec.toNat_ofInt, Nat.shiftLeft_eq]
    omega
  rcases cases_of_wide hs with ⟨-, hw, hm⟩ | ⟨-, hw, hm⟩ | ⟨-, hw, hm⟩ <;>
    rw [longBits, hm, toNat_bit_or (by decide) (by omega)] <;>
    rw [Int.natCast_add, hv] <;> rfl

theorem longBits_injective {s t : ElementSize} {m n : Int}
    (hs : longFault s m = none) (ht : longFault t n = none)
    (h : longBits s (BitVec.ofInt 32 m) = longBits t (BitVec.ofInt 32 n)) : s = t ∧ m = n := by
  have hsum : ((marker s).toNat : Int) + m * 65536 = (marker t).toNat + n * 65536 := by
    rw [← toNat_longBits hs, ← toNat_longBits ht, h]
  obtain ⟨hs, hm⟩ := longFault_eq_none.mp hs
  obtain ⟨ht, hn⟩ := longFault_eq_none.mp ht
  have hbits : ((1 : Word) <<< 19).toNat = 2 ^ 19 ∧ ((1 : Word) <<< 20).toNat = 2 ^ 20 ∧
      ((1 : Word) <<< 22).toNat = 2 ^ 22 := by decide
  rcases cases_of_wide hs with ⟨rfl, hws, hms⟩ | ⟨rfl, hws, hms⟩ | ⟨rfl, hws, hms⟩ <;>
    rcases cases_of_wide ht with ⟨rfl, hwt, hmt⟩ | ⟨rfl, hwt, hmt⟩ | ⟨rfl, hwt, hmt⟩ <;>
    simp only [hms, hmt, hbits] at hsum <;>
    first | exact ⟨rfl, by omega⟩ | omega

end Shift

/-- An element index above a mark for the element size. -/
def laneCode (size : ElementSize) (index : Int) : Int :=
  index * (2 <<< size.code.toNat : Nat) + (1 <<< size.code.toNat : Nat)

private theorem lane_sizes :
    (Check.lastLane .byte = 63 ∧ Check.lastLane .half = 31 ∧ Check.lastLane .single = 15 ∧
        Check.lastLane .double = 7 ∧ Check.lastLane .quad = 3) ∧
      ElementSize.byte.code.toNat = 0 ∧ ElementSize.half.code.toNat = 1 ∧
        ElementSize.single.code.toNat = 2 ∧ ElementSize.double.code.toNat = 3 ∧
        ElementSize.quad.code.toNat = 4 := by
  decide

theorem laneCode_lt {size : ElementSize} {index : Int} (hs : size ∈ ElementSizes.every)
    (hi : 0 ≤ index ∧ index ≤ Check.lastLane size) :
    size.code.toNat ≤ 4 ∧ laneCode size index < 128 := by
  obtain ⟨hl, hc⟩ := lane_sizes
  simp only [ElementSizes.every, List.mem_cons, List.not_mem_nil, or_false] at hs
  simp only [laneCode]
  rcases hs with rfl | rfl | rfl | rfl | rfl <;> simp only [hl, hc] at hi ⊢ <;> omega

theorem toNat_laneBits {size : ElementSize} {index : Int} (hs : size ∈ ElementSizes.every)
    (hi : 0 ≤ index ∧ index ≤ Check.lastLane size) :
    ((laneBits size (BitVec.ofInt 32 index)).toNat : Int) = laneCode size index := by
  obtain ⟨hle, hlt⟩ := laneCode_lt hs hi
  obtain ⟨j, rfl⟩ := Int.eq_ofNat_of_zero_le hi.1
  rw [laneCode] at hlt ⊢
  rw [laneBits]
  generalize size.code.toNat = c at hle hlt ⊢
  have hpos : 0 < 2 ^ c := Nat.two_pow_pos c
  have hmark : 1 <<< c < 2 ^ (c + 1) := by rw [Nat.one_shiftLeft, Nat.pow_succ]; omega
  have hindex : j <<< (c + 1) = j * (2 <<< c) := by
    rw [Nat.shiftLeft_eq, Nat.shiftLeft_eq, Nat.pow_succ, Nat.mul_comm 2]
  have hsum : j * (2 <<< c) + 1 <<< c < 128 := by exact_mod_cast hlt
  have hj : j ≤ j * (2 <<< c) := Nat.le_mul_of_pos_right j (by rw [Nat.shiftLeft_eq]; omega)
  have hone : (1 : Word).toNat = 1 := rfl
  have hnat : (BitVec.ofInt 32 (j : Int) <<< (c + 1) ||| (1 : Word) <<< c).toNat =
      j * (2 <<< c) + 1 <<< c := by
    rw [BitVec.toNat_or, BitVec.toNat_shiftLeft, BitVec.toNat_shiftLeft, BitVec.ofInt_natCast,
      BitVec.toNat_ofNat, hone, Nat.mod_eq_of_lt (by omega : j < 2 ^ 32), hindex,
      Nat.mod_eq_of_lt (by omega), Nat.mod_eq_of_lt (by omega), ← hindex,
      Nat.shiftLeft_add_eq_or_of_lt hmark]
  rw [hnat]
  exact_mod_cast rfl

theorem laneCode_injective {s t : ElementSize} {m n : Int} (hs : s ∈ ElementSizes.every)
    (ht : t ∈ ElementSizes.every) (hm : 0 ≤ m ∧ m ≤ Check.lastLane s)
    (hn : 0 ≤ n ∧ n ≤ Check.lastLane t) (h : laneCode s m = laneCode t n) :
    s = t ∧ m = n := by
  obtain ⟨hl, hc⟩ := lane_sizes
  simp only [ElementSizes.every, List.mem_cons, List.not_mem_nil, or_false] at hs ht
  simp only [laneCode] at h
  rcases hs with rfl | rfl | rfl | rfl | rfl <;> rcases ht with rfl | rfl | rfl | rfl | rfl <;>
    simp only [hl, hc] at h hm hn <;> first | exact ⟨rfl, by omega⟩ | omega

theorem FloatImmediate.decode_of_encode? {x : Number.Binary64} {n : Nat}
    (h : encode? x = some n) : decode (UInt32.ofNat n) = x ∧ n < 256 := by
  rw [encode?] at h
  have hd := List.find?_some h
  exact ⟨of_decide_eq_true hd, List.mem_range.mp (List.mem_of_find?_eq_some h)⟩

end ScalableVector
