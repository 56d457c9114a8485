import Mathlib.Data.List.Basic
import ScalableVector.Proofs.Range

/-!
# Numbers that fit their fields

Most fields place a number without a mask. The checks bound the numbers of accepted operands, so
that only some of their bits can be set. An encoding is trimmed to these bits: its fields are masked
accordingly, and accepted operands have the same word as before. In the trimmed encodings of the
catalogue no two fields share a bit, so that no field of an accepted word reaches another one.
-/

namespace ScalableVector

deriving instance DecidableEq for Code
deriving instance DecidableEq for Check

structure BitRun where
  first : Nat
  count : Nat

/-- All bits of the number that are set lie in one of the runs. -/
def BitRun.Support (runs : List BitRun) (v : Word) : Prop :=
  ∀ k, v.getLsbD k = true → ∃ r ∈ runs, r.first ≤ k ∧ k < r.first + r.count

theorem BitRun.support_of_lt {v : Word} {n : Nat} (h : v.toNat < 1 <<< n) :
    Support [⟨0, n⟩] v := by
  intro k hk
  refine ⟨_, List.mem_singleton_self _, Nat.zero_le k, ?_⟩
  rw [Nat.zero_add]
  by_contra hge
  rw [Nat.one_shiftLeft] at h
  have hlt : v.toNat < 2 ^ k :=
    Nat.lt_of_lt_of_le h (Nat.pow_le_pow_right (by decide) (Nat.le_of_not_lt hge))
  rw [BitVec.getLsbD, Nat.testBit_lt_two_pow hlt] at hk
  cases hk

theorem BitRun.support_all (v : Word) : Support [⟨0, 32⟩] v := support_of_lt v.isLt

def bitLength (n : Nat) : Nat := if n = 0 then 0 else n.log2 + 1

theorem lt_shiftLeft_bitLength (n : Nat) : n < 1 <<< bitLength n := by
  rw [bitLength, Nat.one_shiftLeft]
  split
  · next h => rw [h]; decide
  · exact Nat.lt_log2_self

namespace Encoding

def width (e : Encoding) (signature : List OperandKind) (slot : Nat) : Nat :=
  (e.checkedRanges signature slot).foldr
    (fun r n => if 0 ≤ r.1 then min (bitLength r.2.toNat) n else n) 32

/-- The bits of the number of a field that can be set, if the operands are accepted. -/
def support (e : Encoding) (signature : List OperandKind) : Code → List BitRun
  | .operand slot => [⟨0, e.width signature slot⟩]
  | .quotient .. => [⟨0, 32⟩]
  | .is64 _ => [⟨0, 1⟩]
  | .select _ table => [⟨0, bitLength (table.foldr (fun t n => max t.2 n) 0)⟩]
  | .shift .imm3 .. => [⟨0, 3⟩]
  | .shift .. => [⟨0, 2⟩]
  | .longShift element amount =>
    if .longShift element amount ∈ e.checks then [⟨16, 5⟩, ⟨22, 1⟩] else [⟨0, 32⟩]
  | .lane element index =>
    if .size element .every ∈ e.checks ∧ .lane element index ∈ e.checks then [⟨0, 7⟩]
    else [⟨0, 32⟩]
  | .float _ => [⟨0, 8⟩]

private theorem toNat_ofInt_lt {v : Int} {rs : List (Int × Int)}
    (h : ∀ r ∈ rs, r.1 ≤ v ∧ v ≤ r.2) :
    (BitVec.ofInt 32 v).toNat <
      1 <<< rs.foldr (fun r n => if 0 ≤ r.1 then min (bitLength r.2.toNat) n else n) 32 := by
  induction rs with
  | nil => exact (BitVec.ofInt 32 v).isLt
  | cons r rs ih =>
    replace ih := ih fun r' hr' => h r' (List.mem_cons_of_mem _ hr')
    have hr := h r List.mem_cons_self
    rw [List.foldr_cons]
    split
    · next h0 =>
      have hle : (BitVec.ofInt 32 v).toNat ≤ r.2.toNat := by
        rw [BitVec.toNat_ofInt]
        omega
      rcases Nat.le_total (bitLength r.2.toNat) (rs.foldr _ 32) with hmin | hmin
      · rw [Nat.min_eq_left hmin]
        exact Nat.lt_of_le_of_lt hle (lt_shiftLeft_bitLength _)
      · rwa [Nat.min_eq_right hmin]
    · exact ih

private theorem lookup_le {α : Type} [BEq α] (table : List (α × Nat)) (key : α) :
    (table.lookup key).getD 0 ≤ table.foldr (fun t n => max t.2 n) 0 := by
  induction table with
  | nil => exact Nat.zero_le _
  | cons t ts ih =>
    rw [List.lookup_cons, List.foldr_cons]
    split
    · exact Nat.le_max_left _ _
    · exact Nat.le_trans ih (Nat.le_max_right _ _)

/-- The amount of a widening shift stands in the bits from 16 to 20, as two of the marks do. -/
private theorem support_longBits {size : ElementSize} {amount : Int}
    (h : Shift.longFault size amount = none) :
    BitRun.Support [⟨16, 5⟩, ⟨22, 1⟩] (Shift.longBits size (BitVec.ofInt 32 amount)) := by
  obtain ⟨hs, h0, hlt⟩ := Shift.longFault_eq_none.mp h
  have hcases := Shift.cases_of_wide hs
  have hamount : (BitVec.ofInt 32 amount).toNat < 1 <<< 5 := by
    rw [BitVec.toNat_ofInt]
    rcases hcases with ⟨-, hw, -⟩ | ⟨-, hw, -⟩ | ⟨-, hw, -⟩ <;> omega
  intro k hk
  rw [Shift.longBits, BitVec.getLsbD_or, Bool.or_eq_true] at hk
  rcases hk with hk | hk
  · have hmark : k = 19 ∨ k = 20 ∨ k = 22 := by
      have hbit (n : Nat) (hb : ((1 : Word) <<< n).getLsbD k = true) : k = n := by
        rw [BitVec.getLsbD_shiftLeft, show (1 : Word) = 1#32 from rfl, BitVec.getLsbD_one] at hb
        simp only [Bool.and_eq_true, Bool.not_eq_true', decide_eq_false_iff_not,
          decide_eq_true_eq] at hb
        omega
      rcases hcases with ⟨-, -, hm⟩ | ⟨-, -, hm⟩ | ⟨-, -, hm⟩ <;> rw [hm] at hk <;>
        have := hbit _ hk <;> omega
    simp only [List.mem_cons, List.not_mem_nil, or_false, exists_eq_or_imp, exists_eq_left]
    omega
  · rw [BitVec.getLsbD_shiftLeft, Bool.and_eq_true, Bool.and_eq_true, Bool.not_eq_true',
      decide_eq_false_iff_not] at hk
    obtain ⟨r, hr, -, hlast⟩ := BitRun.support_of_lt hamount (k - 16) hk.2
    cases List.mem_singleton.mp hr
    dsimp only at hlast
    exact ⟨⟨16, 5⟩, List.mem_cons_self, by dsimp only; omega, by dsimp only; omega⟩

variable {e : Encoding} {signature : List OperandKind} {ops : List Operand}

theorem supports (ht : ops.map Operand.kind = signature) (hf : e.fault ops = none) (c : Code) :
    BitRun.Support (e.support signature c) (c.value ops) := by
  have passes {k : Check} (hk : k ∈ e.checks) : k.fault ops = none := fault_eq_none.mp hf k hk
  cases c with
  | operand slot =>
    exact BitRun.support_of_lt (toNat_ofInt_lt fun r hr => value_mem_checkedRange ht hf hr)
  | quotient => exact BitRun.support_all _
  | is64 slot =>
    apply BitRun.support_of_lt
    rw [Code.value]
    cases (generalAt ops slot).is64 <;> decide
  | select slots table =>
    apply BitRun.support_of_lt
    rw [Code.value, BitVec.toNat_ofNat]
    exact Nat.lt_of_le_of_lt (Nat.le_trans (Nat.mod_le _ _) (lookup_le _ _))
      (lt_shiftLeft_bitLength _)
  | shift part direction element amount =>
    have hfits := Shift.split_fits direction (elementAt ops element)
      (BitVec.ofInt 32 (amount.value ops element))
    cases part with
    | imm3 => exact BitRun.support_of_lt hfits.imm3
    | tszl => exact BitRun.support_of_lt hfits.tszl
    | tszh => exact BitRun.support_of_lt hfits.tszh
  | longShift element amount =>
    rw [support]
    split
    · next hc => exact support_longBits (passes hc)
    · exact BitRun.support_all _
  | lane element index =>
    rw [support]
    split
    · next hc =>
      have hs := Shift.sizeFault_eq_none.mp (passes hc.1)
      have hi := Shift.boundsFault_eq_none.mp (passes hc.2)
      have hvalue := toNat_laneBits hs hi
      have hlt := (laneCode_lt hs hi).2
      exact BitRun.support_of_lt (by rw [Code.value]; omega)
    · exact BitRun.support_all _
  | float slot =>
    apply BitRun.support_of_lt
    rw [Code.value]
    cases hx : FloatImmediate.encode? (floatAt ops slot) with
    | none => decide
    | some n =>
      have hn := (FloatImmediate.decode_of_encode? hx).2
      rw [Option.getD_some, BitVec.toNat_ofNat]
      exact Nat.lt_of_le_of_lt (Nat.mod_le _ _) hn

end Encoding

def Term.within (t : Term) (r : BitRun) : Term :=
  ⟨max t.start r.first,
    some (min (r.first + r.count) (t.start + t.kept.getD 32) - max t.start r.first),
    t.lsb + (max t.start r.first - t.start)⟩

theorem Term.getLsbD_within {t : Term} {runs : List BitRun} {v : Word} (h : BitRun.Support runs v)
    (k : Nat) : (∃ r ∈ runs, ((t.within r).place v).getLsbD k = true) ↔
      (t.place v).getLsbD k = true := by
  simp only [Term.place_eq, Piece.getLsbD_place, Term.piece, Term.within, Option.getD_some,
    Bool.and_eq_true, decide_eq_true_eq]
  -- a bit of the word comes from the same bit of the number, with the run or without
  have hindex (r : BitRun) (hle : t.lsb + (max t.start r.first - t.start) ≤ k) :
      max t.start r.first + (k - (t.lsb + (max t.start r.first - t.start))) =
        t.start + (k - t.lsb) := by omega
  constructor
  · rintro ⟨r, hr, ⟨⟨⟨hk, hlsb⟩, hwidth⟩, hbit⟩⟩
    rw [hindex r hlsb] at hbit
    exact ⟨⟨⟨hk, by omega⟩, by omega⟩, hbit⟩
  · rintro ⟨⟨⟨hk, hlsb⟩, hwidth⟩, hbit⟩
    obtain ⟨r, hr, hfirst, hlast⟩ := h _ hbit
    have hle : t.lsb + (max t.start r.first - t.start) ≤ k := by omega
    refine ⟨r, hr, ⟨⟨hk, hle⟩, by omega⟩, ?_⟩
    rwa [hindex r hle]

def Field.trim (runs : List BitRun) (f : Field) : Field :=
  ⟨f.code, f.terms.flatMap fun t => runs.map t.within⟩

theorem Field.contribution_trim {f : Field} {runs : List BitRun} {ops : List Operand}
    (h : BitRun.Support runs (f.code.value ops)) :
    (f.trim runs).contribution ops = f.contribution ops := by
  apply BitVec.eq_of_getLsbD_eq
  intro k _
  rw [Bool.eq_iff_iff, contribution, contribution,
    getLsbD_foldr_or_zero (fun t : Term => t.place _),
    getLsbD_foldr_or_zero (fun t : Term => t.place _)]
  simp only [trim, List.mem_flatMap, List.mem_map]
  constructor
  · rintro ⟨_, ⟨t, ht, r, hr, rfl⟩, hk⟩
    exact ⟨t, ht, (Term.getLsbD_within h k).mp ⟨r, hr, hk⟩⟩
  · rintro ⟨t, ht, hk⟩
    obtain ⟨r, hr, hk⟩ := (Term.getLsbD_within h k).mpr hk
    exact ⟨t.within r, ⟨t, ht, r, hr, rfl⟩, hk⟩

namespace Encoding

/-- The encoding with every field masked to the bits that accepted operands can set. -/
def trimmed (e : Encoding) (signature : List OperandKind) : Encoding :=
  { e with fields := e.fields.map fun f => f.trim (e.support signature f.code) }

variable {e : Encoding} {signature : List OperandKind} {ops : List Operand}

theorem mem_trimmed {f : Field} (h : f ∈ e.fields) :
    f.trim (e.support signature f.code) ∈ (e.trimmed signature).fields :=
  List.mem_map_of_mem h

/-- The checks keep every number within its field, so that the masks change nothing. -/
theorem word_trimmed (ht : ops.map Operand.kind = signature) (hf : e.fault ops = none) :
    (e.trimmed signature).word ops = e.word ops := by
  rw [word, word, trimmed, List.foldr_map]
  dsimp only
  simp only [Field.contribution_trim (supports ht hf _)]

end Encoding

def Template.trimmed (t : Template) : Encoding := t.encoding.trimmed t.signature

theorem Template.Yields.word_trimmed {t : Template} {ops : List Operand} {w : Word}
    (h : t.Yields ops w) : t.trimmed.word ops = w :=
  (Encoding.word_trimmed h.typed h.accepted).trans h.word

/-- The fields of no template of the catalogue overlap. -/
theorem Catalogue.separate :
    ∀ i ∈ Catalogue.instructions, ∀ t ∈ i.templates, t.trimmed.Separate := by
  decide +kernel

end ScalableVector
