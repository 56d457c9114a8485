import Mathlib.Algebra.Ring.Nat
import ScalableVector.Proofs.Footprint

/-!
# Numbers gathered from a word

A number may stand in a word in several runs of bits. Put together again they give the low bits of
the number that the field holds, and this is the number itself, if it fits.
-/

namespace ScalableVector

def gather (w : Word) : List Piece → Nat
  | [] => 0
  | p :: ps => (w.extractLsb' p.lsb p.width).toNat * 2 ^ p.start + gather w ps

/-- The runs follow each other without a gap, from bit `first` of the number up to bit `last`. -/
def Tiles (first last : Nat) : List Piece → Prop
  | [] => first = last
  | p :: ps => p.start = first ∧ Tiles (first + p.width) last ps

instance Tiles.decidable : (first last : Nat) → (ps : List Piece) → Decidable (Tiles first last ps)
  | _, _, [] => inferInstanceAs (Decidable (_ = _))
  | _, _, _ :: ps => @instDecidableAnd _ _ _ (Tiles.decidable _ _ ps)

theorem gather_add_mod {w v : Word} {ps : List Piece} {first last : Nat}
    (ht : Tiles first last ps)
    (h : ∀ p ∈ ps, w.extractLsb' p.lsb p.width = v.extractLsb' p.start p.width) :
    gather w ps + v.toNat % 2 ^ first = v.toNat % 2 ^ last := by
  induction ps generalizing first with
  | nil =>
    have heq : first = last := ht
    rw [gather, heq, Nat.zero_add]
  | cons p ps ih =>
    obtain ⟨hstart, htail⟩ := ht
    have hrest := ih htail fun q hq => h q (List.mem_cons_of_mem _ hq)
    have hrun : (w.extractLsb' p.lsb p.width).toNat = v.toNat / 2 ^ first % 2 ^ p.width := by
      rw [h p List.mem_cons_self, hstart, BitVec.extractLsb'_toNat, Nat.shiftRight_eq_div_pow]
    -- the run adds the bits from `first` on to those below
    have hsplit := Nat.mod_mul (x := v.toNat) (a := 2 ^ first) (b := 2 ^ p.width)
    rw [← Nat.pow_add] at hsplit
    rw [gather, hrun, hstart, Nat.mul_comm]
    omega

def Piece.Within (q p : Piece) : Prop :=
  p.start ≤ q.start ∧ q.start + q.width ≤ p.start + p.width ∧ q.lsb + p.start = p.lsb + q.start

instance (q p : Piece) : Decidable (q.Within p) := inferInstanceAs (Decidable (_ ∧ _ ∧ _))

theorem Piece.Within.slice_eq {q p : Piece} (h : q.Within p) {w v : Word}
    (hp : w.extractLsb' p.lsb p.width = v.extractLsb' p.start p.width) :
    w.extractLsb' q.lsb q.width = v.extractLsb' q.start q.width := by
  obtain ⟨hlo, hhi, hlsb⟩ := h
  apply BitVec.eq_of_getLsbD_eq
  intro k hk
  have hbit := congrArg (fun b => b.getLsbD (q.start - p.start + k)) hp
  have hin : q.start - p.start + k < p.width := by omega
  have hw : p.lsb + (q.start - p.start + k) = q.lsb + k := by omega
  have hv : p.start + (q.start - p.start + k) = q.start + k := by omega
  simp only [BitVec.getLsbD_extractLsb', hin, decide_true, Bool.true_and, hw, hv] at hbit
  simp only [BitVec.getLsbD_extractLsb', hk, decide_true, Bool.true_and, hbit]

/-- The runs make up the lowest bits of the number of a field. -/
def Field.Holds (f : Field) (width : Nat) (ps : List Piece) : Prop :=
  Tiles 0 width ps ∧ ∀ q ∈ ps, ∃ p ∈ f.pieces, q.Within p

instance (f : Field) (width : Nat) (ps : List Piece) : Decidable (f.Holds width ps) :=
  inferInstanceAs (Decidable (_ ∧ ∀ q ∈ ps, ∃ p ∈ f.pieces, q.Within p))

section

variable {e : Encoding} {signature : List OperandKind} {ops : List Operand} {f : Field}

/-- The word of accepted operands holds every bit of a number that the field holds once it is
trimmed. -/
theorem Encoding.slice_field (hs : (e.trimmed signature).Separate)
    (ht : ops.map Operand.kind = signature) (hf : e.fault ops = none) (hmem : f ∈ e.fields)
    {p q : Piece} (hp : p ∈ (f.trim (e.support signature f.code)).pieces) (hq : q.Within p) :
    (e.word ops).extractLsb' q.lsb q.width =
      (f.code.value ops).extractLsb' q.start q.width := by
  rw [← word_trimmed ht hf]
  exact hq.slice_eq (slice_word hs ops (mem_pieces (mem_trimmed hmem) hp))

theorem Encoding.gather_word (hs : (e.trimmed signature).Separate)
    (ht : ops.map Operand.kind = signature) (hf : e.fault ops = none) (hmem : f ∈ e.fields)
    {width : Nat} {ps : List Piece}
    (h : (f.trim (e.support signature f.code)).Holds width ps) :
    gather (e.word ops) ps = (f.code.value ops).toNat % 2 ^ width := by
  have hslices : ∀ q ∈ ps, (e.word ops).extractLsb' q.lsb q.width =
      (f.code.value ops).extractLsb' q.start q.width := by
    intro q hq
    obtain ⟨p, hp, hwithin⟩ := h.2 q hq
    exact slice_field hs ht hf hmem hp hwithin
  have hsum := gather_add_mod h.1 hslices
  rwa [Nat.pow_zero, Nat.mod_one, Nat.add_zero] at hsum

end

theorem toNat_ofInt_mod {v : Int} {width : Nat} (hw : width ≤ 32) (h0 : 0 ≤ v)
    (hv : v < (2 ^ width : Nat)) : (((BitVec.ofInt 32 v).toNat % 2 ^ width : Nat) : Int) = v := by
  have hpow : 2 ^ width ≤ 2 ^ 32 := Nat.pow_le_pow_right (by decide) hw
  rw [BitVec.toNat_ofInt, Int.natCast_emod, Int.toNat_of_nonneg (Int.emod_nonneg _ (by decide)),
    Int.emod_eq_of_lt h0 (by omega), Int.emod_eq_of_lt h0 hv]

theorem toInt_ofInt_mod {v : Int} {width : Nat} (hw : width < 32) (hlo : -(2 ^ width : Nat) ≤ v)
    (hhi : v < (2 ^ width : Nat)) :
    (BitVec.ofNat (width + 1) ((BitVec.ofInt 32 v).toNat % 2 ^ (width + 1))).toInt = v := by
  have hlow : BitVec.ofNat (width + 1) ((BitVec.ofInt 32 v).toNat % 2 ^ (width + 1)) =
      BitVec.ofInt (width + 1) v := by
    have hdvd : ((2 ^ (width + 1) : Nat) : Int) ∣ (2 ^ 32 : Nat) :=
      Int.natCast_dvd_natCast.mpr (Nat.pow_dvd_pow 2 hw)
    apply BitVec.eq_of_toNat_eq
    apply Int.ofNat.inj
    simp only [BitVec.toNat_ofNat, Nat.mod_mod, BitVec.toNat_ofInt, Int.ofNat_eq_natCast]
    rw [Int.natCast_emod, Int.toNat_of_nonneg (Int.emod_nonneg _ (by decide)),
      Int.toNat_of_nonneg (Int.emod_nonneg _ (by omega)), Int.emod_emod_of_dvd _ hdvd]
  rw [hlow, BitVec.toInt_ofInt]
  apply Int.bmod_eq_of_le
  · rw [Nat.pow_succ]
    omega
  · rw [Nat.pow_succ]
    omega

end ScalableVector
