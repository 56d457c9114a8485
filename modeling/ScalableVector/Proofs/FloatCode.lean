import Mathlib.Tactic.FieldSimp
import ScalableVector.Proofs.FloatValue
import ScalableVector.Proofs.Gather

/-!
# The code of a floating-point immediate

The 8-bit immediates stand for the numbers `(16 + m) / 16 * 2 ^ e` with `m` below 16 and `e` from
-3 to 4, and for their negatives. The search through all bytes finds the byte of every such number
and nothing for any other number, so that no two numbers have the same word.
-/

namespace ScalableVector.FloatImmediate

open Number

/-- The number is plus or minus `(16 + m) / 16 * 2 ^ e`. -/
structure HasForm (x : Binary64) (negative : Bool) (e : Int) (m : Nat) : Prop where
  finite : x.IsFinite
  fraction : m < 16
  exponent : -3 ≤ e ∧ e ≤ 4
  value : x.value = (if negative then -1 else 1) * ((16 + m) / 16) * 2 ^ e

/-- The bits `a b cd efgh` of a form: `b` tells the small powers of two from the large ones. -/
def byte (negative : Bool) (e : Int) (m : Nat) : Nat :=
  let (b, cd) := if 1 ≤ e then (0, e - 1) else (1, e + 3)
  negative.toNat <<< 7 + b <<< 6 + cd.toNat <<< 4 + m

variable {x y : Binary64} {negative : Bool} {e : Int} {m n : Nat}

private theorem exponent_bounds (n : Nat) : -3 ≤ exponent n ∧ exponent n ≤ 4 := by
  rw [exponent]
  split <;> omega

private theorem fields_decode (n : UInt32) :
    (decode n).isNegative = n.toNat.testBit 7 ∧
      ((decode n).exponentBits : Int) = exponent n.toNat + 1023 ∧
      (decode n).fraction = n.toNat % 16 * 2 ^ 48 := by
  have hbounds := exponent_bounds n.toNat
  have hfields := Binary64.fields_ofMagnitude (n.toNat.testBit 7)
    (show (exponent n.toNat + 1023).toNat < 2 ^ 11 by omega)
    (show n.toNat % 16 * 2 ^ 48 < 2 ^ 52 by omega)
  have hdecode : decode n = Binary64.ofMagnitude (n.toNat.testBit 7)
      ((exponent n.toNat + 1023).toNat * 2 ^ 52 + n.toNat % 16 * 2 ^ 48) := by
    rw [decode, Nat.shiftLeft_eq, Nat.shiftLeft_eq]
  rw [hdecode]
  refine ⟨hfields.1, ?_, hfields.2.2⟩
  rw [hfields.2.1]
  omega

private theorem decode_congr {a b : UInt32} (h : a.toNat % 256 = b.toNat % 256) :
    decode a = decode b := by
  have hbit {k : Nat} (hk : k < 8) : a.toNat.testBit k = b.toNat.testBit k := by
    have ha := Nat.testBit_mod_two_pow a.toNat 8 k
    have hb := Nat.testBit_mod_two_pow b.toNat 8 k
    rw [decide_eq_true hk, Bool.true_and] at ha hb
    rw [← ha, ← hb]
    exact congrArg (Nat.testBit · k) h
  have hexponent : exponent a.toNat = exponent b.toNat := by
    have hmiddle : a.toNat / 16 % 4 = b.toNat / 16 % 4 := by omega
    simp only [exponent, hbit (show 6 < 8 by decide), hmiddle]
  have hlow : a.toNat % 16 = b.toNat % 16 := by omega
  rw [decode, decode, hbit (show 7 < 8 by decide), hexponent, hlow]

/-- A number of the form has these fields, and no other number has. -/
private theorem hasForm_iff :
    HasForm x negative e m ↔ m < 16 ∧ (-3 ≤ e ∧ e ≤ 4) ∧ x.isNegative = negative ∧
      (x.exponentBits : Int) = e + 1023 ∧ x.fraction = m * 2 ^ 48 := by
  -- the same number with a significand of 53 bits
  have hform : (if negative then -1 else 1 : ℚ) * ((16 + m) / 16) * 2 ^ e =
      (if negative then -1 else 1) * ((16 + m) * 2 ^ 48 : Nat) * 2 ^ (e - 52) := by
    rw [zpow_sub₀ two_ne_zero]
    push_cast
    field_simp
    norm_num
  constructor
  · rintro ⟨-, hm, he, hvalue⟩
    rw [hform] at hvalue
    obtain ⟨hsign, hsignificand, hscale⟩ :=
      Binary64.eq_of_value (by omega) (by omega) (by omega) hvalue
    have hzero : x.exponentBits ≠ 0 := by
      intro h
      rw [Binary64.scale, if_pos h] at hscale
      omega
    rw [Binary64.scale, if_neg hzero] at hscale
    rw [Binary64.significand, if_neg hzero, Nat.one_shiftLeft] at hsignificand
    exact ⟨hm, he, hsign, by omega, by omega⟩
  · rintro ⟨hm, he, hsign, hexponent, hfraction⟩
    have hzero : x.exponentBits ≠ 0 := by omega
    refine ⟨fun h => by omega, hm, he, ?_⟩
    have hsignificand : x.significand = (16 + m) * 2 ^ 48 := by
      rw [Binary64.significand, if_neg hzero, Nat.one_shiftLeft, hfraction]
      omega
    have hscale : x.scale = e - 52 := by
      rw [Binary64.scale, if_neg hzero]
      omega
    rw [hform, Binary64.value, hsign, hsignificand, hscale]

private theorem bits_byte (negative : Bool) (he : -3 ≤ e ∧ e ≤ 4) (hm : m < 16) :
    byte negative e m < 256 ∧ (byte negative e m).testBit 7 = negative ∧
      exponent (byte negative e m) = e ∧ byte negative e m % 16 = m := by
  have hall : ∀ negative : Bool, ∀ k < 8, ∀ m < 16,
      byte negative ((k : Nat) - 3) m < 256 ∧ (byte negative (k - 3) m).testBit 7 = negative ∧
        exponent (byte negative (k - 3) m) = k - 3 ∧ byte negative (k - 3) m % 16 = m := by
    decide +kernel
  have hk : ((e + 3).toNat : Int) - 3 = e := by omega
  have h := hall negative (e + 3).toNat (by omega) m hm
  rwa [hk] at h

private theorem byte_bits (hn : n < 256) : byte (n.testBit 7) (exponent n) (n % 16) = n := by
  have hall : ∀ n < 256, byte (n.testBit 7) (exponent n) (n % 16) = n := by decide +kernel
  exact hall n hn

private theorem hasForm_decode (hn : n < 256) :
    HasForm (decode (UInt32.ofNat n)) (n.testBit 7) (exponent n) (n % 16) := by
  have hsmall : (UInt32.ofNat n).toNat = n :=
    UInt32.toNat_ofNat_of_lt (Nat.lt_of_lt_of_le hn (by decide))
  have hfields := fields_decode (UInt32.ofNat n)
  rw [hsmall] at hfields
  exact hasForm_iff.mpr ⟨Nat.mod_lt _ (by decide), exponent_bounds n, hfields⟩

private theorem HasForm.byte_eq {negative' : Bool} {e' : Int} {m' : Nat}
    (h : HasForm x negative e m) (h' : HasForm x negative' e' m') :
    byte negative e m = byte negative' e' m' := by
  obtain ⟨-, -, hsign, hexponent, hfraction⟩ := hasForm_iff.mp h
  obtain ⟨-, -, hsign', hexponent', hfraction'⟩ := hasForm_iff.mp h'
  have he : e = e' := by omega
  have hm : m = m' := by omega
  rw [← hsign, ← hsign', he, hm]

private theorem HasForm.eq (h : HasForm x negative e m) (h' : HasForm y negative e m) : x = y := by
  obtain ⟨-, -, hsign, hexponent, hfraction⟩ := hasForm_iff.mp h
  obtain ⟨-, -, hsign', hexponent', hfraction'⟩ := hasForm_iff.mp h'
  exact Binary64.eq_of_fields (by rw [hsign, hsign']) (by omega) (by rw [hfraction, hfraction'])

theorem encode?_iff :
    encode? x = some n ↔ ∃ negative e m, HasForm x negative e m ∧ n = byte negative e m := by
  constructor
  · intro h
    obtain ⟨hdecode, hn⟩ := decode_of_encode? h
    refine ⟨_, _, _, ?_, (byte_bits hn).symm⟩
    rw [← hdecode]
    exact hasForm_decode hn
  · rintro ⟨negative, e, m, h, rfl⟩
    obtain ⟨hlt, hsign, hexponent, hfraction⟩ := bits_byte negative h.exponent h.fraction
    have hform := hasForm_decode hlt
    rw [hsign, hexponent, hfraction] at hform
    have hdecode : decode (UInt32.ofNat (byte negative e m)) = x := hform.eq h
    cases hfound : encode? x with
    | none =>
      have hmiss := List.find?_eq_none.mp hfound _ (List.mem_range.mpr hlt)
      exact absurd (decide_eq_true hdecode) hmiss
    | some n =>
      obtain ⟨hother, hn⟩ := decode_of_encode? hfound
      have hn' := hasForm_decode hn
      rw [hother] at hn'
      rw [← byte_bits hn, hn'.byte_eq h]

private theorem exists_form_iff :
    (∃ negative e m, HasForm x negative e m) ↔
      x.fraction % 2 ^ 48 = 0 ∧ 1020 ≤ x.exponentBits ∧ x.exponentBits ≤ 1027 := by
  constructor
  · rintro ⟨negative, e, m, h⟩
    obtain ⟨hm, he, -, hexponent, hfraction⟩ := hasForm_iff.mp h
    omega
  · rintro ⟨hlow, hexponent⟩
    have hlt := x.fraction_lt
    refine ⟨x.isNegative, x.exponentBits - 1023, x.fraction / 2 ^ 48, hasForm_iff.mpr ?_⟩
    exact ⟨by omega, by omega, rfl, by omega, by omega⟩

private theorem not_special (h : HasForm x negative e m) :
    x.isZero = false ∧ x.isInfinite = false ∧ x.isNaN = false := by
  obtain ⟨-, he, -, hexponent, -⟩ := hasForm_iff.mp h
  simp only [Binary64.isZero, Binary64.isInfinite, Binary64.isNaN, decide_eq_false_iff_not]
  omega

private def broadcast (entry : Entry) (size : ElementSize) (zd : VectorRegister) (x : Binary64) :
    Call :=
  ⟨Constant.float.instruction entry, [.element size, .vector zd, .float x], rfl⟩

theorem float_mem : Constant.float ∈ Catalogue.families := by
  simp [Catalogue.families, Constant.families]

section
variable {entry : Entry} {size : ElementSize} {zd : VectorRegister} {features : FeatureSet}

private theorem fault_broadcast (hs : size ∈ ElementSizes.floating) (hz : zd.number ≤ 31) :
    (Constant.float.encoding entry).fault (broadcast entry size zd x).operands = none ↔
      ∃ n, encode? x = some n := by
  have hsize : elementAt (broadcast entry size zd x).operands 0 = size := rfl
  have hfloat : floatAt (broadcast entry size zd x).operands 2 = x := rfl
  have hregister : Check.registerFault (broadcast entry size zd x).operands 1 = none :=
    Check.registerFault_of_vector rfl hz
  rw [Encoding.fault_eq_none]
  simp only [Family.encoding, Constant.float, List.forall_mem_cons, Check.fault, hsize, hfloat,
    hregister, Shift.sizeFault_eq_none, hs, true_and]
  cases encode? x <;> simp

private theorem words_broadcast (he : entry ∈ Constant.float.entries) {w : Word} :
    (broadcast entry size zd x).words features = [w] ↔
      (Constant.float.encoding entry).fault (broadcast entry size zd x).operands = none ∧
        (Constant.float.encoding entry).word (broadcast entry size zd x).operands = w := by
  have hincludes : features.includes .empty = true := by
    simp [FeatureSet.includes, FeatureSet.empty]
  exact Call.words_iff_of_family float_mem he rfl hincludes

private theorem encode?_of_words (he : entry ∈ Constant.float.entries)
    (hs : size ∈ ElementSizes.floating) (hz : zd.number ≤ 31) {w : Word}
    (hw : (broadcast entry size zd x).words features = [w]) :
    encode? x = some (gather w [⟨0, 8, 5⟩]) := by
  obtain ⟨hnone, rfl⟩ := (words_broadcast he).mp hw
  obtain ⟨n, hn⟩ := (fault_broadcast hs hz).mp hnone
  have hseparate := Catalogue.separate_of_family float_mem he
  have hfield : (⟨.float 2, [⟨0, none, 5⟩]⟩ : Field) ∈ (Constant.float.encoding entry).fields := by
    simp [Family.encoding, Constant.float]
  have hholds : (Field.trim [⟨0, 8⟩] ⟨.float 2, [⟨0, none, 5⟩]⟩).Holds 8 [⟨0, 8, 5⟩] := by decide
  have hlt := (decode_of_encode? hn).2
  have hvalue : (Code.float 2).value (broadcast entry size zd x).operands = BitVec.ofNat 32 n := by
    show BitVec.ofNat 32 ((encode? x).getD 0) = BitVec.ofNat 32 n
    rw [hn, Option.getD_some]
  rw [hn, Encoding.gather_word hseparate rfl hnone hfield hholds, hvalue, BitVec.toNat_ofNat]
  congr 1
  omega

end

/-- The search finds exactly the numbers of the form, and the byte of each, which stands for the
number again. So exactly these numbers can be broadcast, and the word tells them apart. -/
theorem codec_exact :
    (∀ x n, encode? x = some n ↔
      ∃ negative e m, HasForm x negative e m ∧ n = byte negative e m) ∧
    (∀ x, (∃ n, encode? x = some n) ↔
      x.fraction % 2 ^ 48 = 0 ∧ 1020 ≤ x.exponentBits ∧ x.exponentBits ≤ 1027) ∧
    (∀ x n, encode? x = some n → decode (UInt32.ofNat n) = x) ∧
    (∀ a b : UInt32, a.toNat % 256 = b.toNat % 256 → decode a = decode b) ∧
    ∀ name ∈ ["Fdup", "Fmov"], ∃ i ∈ Catalogue.instructions, i.name = name ∧
      ∀ size ∈ [ElementSize.half, .single, .double], ∀ zd : VectorRegister, zd.number ≤ 31 →
        ∃ c : Binary64 → Call,
          (∀ x, (c x).instruction = i ∧
            (c x).operands = [.element size, .vector zd, .float x]) ∧
          ∀ features : FeatureSet,
            (∀ x, (∃ w, (c x).words features = [w]) ↔
              ∃ negative e m, HasForm x negative e m) ∧
            (∀ x w, (c x).words features = [w] →
              x.isZero = false ∧ x.isInfinite = false ∧ x.isNaN = false) ∧
            ∀ x y w, (c x).words features = [w] → (c y).words features = [w] → x = y := by
  have hexists (x : Binary64) : (∃ n, encode? x = some n) ↔
      ∃ negative e m, HasForm x negative e m := by
    simp only [encode?_iff]
    constructor
    · rintro ⟨n, negative, e, m, h, -⟩
      exact ⟨negative, e, m, h⟩
    · rintro ⟨negative, e, m, h⟩
      exact ⟨_, negative, e, m, h, rfl⟩
  refine ⟨fun x n => encode?_iff, fun x => (hexists x).trans exists_form_iff,
    fun x n h => (decode_of_encode? h).1, fun a b h => decode_congr h, ?_⟩
  intro name hname
  obtain ⟨entry, he, hentry⟩ : ∃ entry ∈ Constant.float.entries, entry.name = name :=
    List.mem_map.mp hname
  refine ⟨Constant.float.instruction entry, Catalogue.mem_of_family float_mem he, hentry, ?_⟩
  intro size hs zd hz
  refine ⟨broadcast entry size zd, fun x => ⟨rfl, rfl⟩, ?_⟩
  intro features
  refine ⟨?_, ?_, ?_⟩
  · intro x
    simp only [words_broadcast he, exists_and_left, exists_eq', and_true, fault_broadcast hs hz,
      hexists]
  · intro x w hw
    obtain ⟨negative, e, m, h⟩ := (hexists x).mp ⟨_, encode?_of_words he hs hz hw⟩
    exact not_special h
  · intro x y w hx hy
    rw [← (decode_of_encode? (encode?_of_words he hs hz hx)).1,
      ← (decode_of_encode? (encode?_of_words he hs hz hy)).1]

/-- The greatest immediate is 31. -/
theorem thirtyOne_has_word :
    encode? ⟨0x403f000000000000⟩ = some 0x3f ∧
      ∃ (c : Call) (w : Word), c.operands = [.element .single, .vector ⟨2⟩,
        .float ⟨0x403f000000000000⟩] ∧ c.words .empty = [w] := by
  have hbyte : encode? ⟨0x403f000000000000⟩ = some 0x3f := by decide +kernel
  obtain ⟨hform, -, -, -, hwords⟩ := codec_exact
  obtain ⟨i, -, -, hi⟩ := hwords "Fmov" (by simp)
  obtain ⟨c, hc, h⟩ := hi .single (by simp) ⟨2⟩ (by decide)
  obtain ⟨negative, e, m, hx, -⟩ := (hform _ _).mp hbyte
  obtain ⟨w, hw⟩ := ((h .empty).1 _).mpr ⟨negative, e, m, hx⟩
  exact ⟨hbyte, _, w, (hc _).2, hw⟩

end ScalableVector.FloatImmediate
