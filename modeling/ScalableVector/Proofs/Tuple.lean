import ScalableVector.Proofs.Classification

/-!
# Tuples of consecutive registers

Some instructions name several registers of which the word holds the first one only. The others are
counted from it, and register 0 follows register 31.
-/

namespace ScalableVector

/-- Instructions that name consecutive registers, with the slots of the registers and the lowest bit
of the field that holds the first one. -/
structure Tuple where
  names : List String
  slots : List Nat
  lsb : Nat

def tuples : List Tuple := [
  -- loads and stores of interleaved elements
  ⟨["Ld2b", "Ld2h", "Ld2w", "Ld2d", "St2b", "St2h", "St2w", "St2d"], [0, 1], 0⟩,
  ⟨["Ld3b", "Ld3h", "Ld3w", "Ld3d", "St3b", "St3h", "St3w", "St3d"], [0, 1, 2], 0⟩,
  ⟨["Ld4b", "Ld4h", "Ld4w", "Ld4d", "St4b", "St4h", "St4w", "St4d"], [0, 1, 2, 3], 0⟩,
  -- two registers taken for one
  ⟨["SpliceConstructive"], [3, 4], 5⟩,
  ⟨["ExtConstructive"], [1, 2], 5⟩]

theorem VectorRegister.sequential_iff (zs : List VectorRegister) :
    sequential zs = true ↔ ∀ z, zs.head? = some z → ∀ k r, zs[k]? = some r → 0 < k →
      r.number.toNat = (z.number.toNat + k) % 32 := by
  cases zs with
  | nil => simp [sequential]
  | cons z zs =>
    rw [sequential_cons_iff]
    constructor
    · intro h first hfirst k r hr hk
      obtain rfl := Option.some.inj hfirst
      obtain ⟨k, rfl⟩ := Nat.exists_eq_succ_of_ne_zero (Nat.ne_of_gt hk)
      obtain ⟨hlt, rfl⟩ := List.getElem?_eq_some_iff.mp hr
      exact h k (Nat.lt_of_succ_lt_succ hlt)
    · intro h k hk
      exact h z rfl (k + 1) zs[k] (List.getElem?_eq_getElem hk) (Nat.succ_pos k)

/-- The place of the first register is known, and those of the others are counted from it. -/
structure Instruction.Counts (i : Instruction) (g : Tuple) : Prop where
  vectors : ∀ slot ∈ g.slots, i.signature[slot]? = some .vector
  counted : ∃ e ∈ i.layout.fixed?, ∀ p ∈ g.slots.zipIdx,
    (Template.mk i.name i.signature e).hasPlace p.1 ⟨g.lsb, 5, p.2⟩ = true
  distinct : g.slots.length ≤ 32

instance (i : Instruction) (g : Tuple) : Decidable (i.Counts g) :=
  decidable_of_iff
    ((∀ slot ∈ g.slots, i.signature[slot]? = some .vector) ∧
      (∃ e ∈ i.layout.fixed?, ∀ p ∈ g.slots.zipIdx,
        (Template.mk i.name i.signature e).hasPlace p.1 ⟨g.lsb, 5, p.2⟩ = true) ∧
      g.slots.length ≤ 32)
    ⟨fun h => ⟨h.1, h.2.1, h.2.2⟩, fun h => ⟨h.vectors, h.counted, h.distinct⟩⟩

def Layout.ordersRegisters : Layout → Bool
  | .fixed e => e.checks.any fun | .sequential _ => true | _ => false
  | _ => false

-- The instructions that order registers are few, so that few are tried for each name.
private theorem Catalogue.counts_of_ordersRegisters : ∀ g ∈ tuples, ∀ name ∈ g.names,
    ∃ i ∈ Catalogue.instructions.filter (·.layout.ordersRegisters), i.name = name ∧
      i.Counts g := by
  decide +kernel

theorem vector_of_kind {ops : List Operand} {signature : List OperandKind} {slot : Nat}
    (ht : ops.map Operand.kind = signature) (h : signature[slot]? = some .vector) :
    ops[slot]? = some (.vector (vectorAt ops slot)) := by
  rw [← ht, List.getElem?_map, Option.map_eq_some_iff] at h
  obtain ⟨o, ho, hk⟩ := h
  rw [vectorAt, operandAt, List.getD_eq_getElem?_getD, ho]
  cases o with
  | vector z => rfl
  | _ => cases hk

theorem Place.read_five (lsb k : Nat) (w : Word) :
    Place.read ⟨lsb, 5, k⟩ w = (((w >>> lsb) &&& 31).toNat + k) % 32 := by
  have hbits : Place.bits ⟨lsb, 5, k⟩ w = ((w >>> lsb) &&& 31).toNat := rfl
  have hlt : Place.bits ⟨lsb, 5, k⟩ w < 32 := by
    rw [Place.bits_eq_slice _ _ (by decide : 5 ≤ 32)]
    exact (w.extractLsb' lsb 5).isLt
  rw [← hbits, Place.read]
  split
  · next hk =>
    have hzero : k = 0 := hk
    omega
  · rfl

namespace Instruction.Counts

variable {g : Tuple} {c : Call} {features : FeatureSet} {w : Word}

theorem number (h : c.instruction.Counts g) (hc : c.instruction ∈ Catalogue.instructions)
    (hw : c.encode features = .ok w) {k slot : Nat} (hk : g.slots[k]? = some slot) :
    (vectorAt c.operands slot).number.toNat = (((w >>> g.lsb) &&& 31).toNat + k) % 32 := by
  obtain ⟨e, he, hplace⟩ := h.counted
  have hlayout := Layout.eq_of_fixed he
  have hencode := c.layout_encode_of_encode hw
  rw [hlayout] at hencode
  obtain ⟨hfault, hword⟩ := Encoding.encode_eq_ok.mp hencode
  have hyields : (Template.mk c.instruction.name c.instruction.signature e).Yields c.operands w :=
    ⟨c.typed, hfault, hword⟩
  have htemplate : ⟨c.instruction.name, c.instruction.signature, e⟩ ∈
      c.instruction.templates := by
    rw [templates, hlayout]
    exact List.mem_singleton_self _
  have hslot : c.instruction.signature[slot]? = some .vector :=
    h.vectors slot (List.mem_of_getElem? hk)
  have hvalue := hyields.value_of_hasPlace (Catalogue.separate _ hc _ htemplate)
    (hplace (slot, k) (List.mk_mem_zipIdx_iff_getElem?.mpr hk))
  rw [value_of_vector (kind_operandAt c.typed hslot), Place.read_five] at hvalue
  exact Int.ofNat_inj.mp hvalue

theorem nodup (h : c.instruction.Counts g) (hc : c.instruction ∈ Catalogue.instructions)
    (hw : c.encode features = .ok w) : (g.slots.map (vectorAt c.operands)).Nodup := by
  rw [List.nodup_iff_getElem?_ne_getElem?]
  intro a b hab hb
  rw [List.length_map] at hb
  have hlength := h.distinct
  rw [List.getElem?_map, List.getElem?_map, List.getElem?_eq_getElem hb,
    List.getElem?_eq_getElem (Nat.lt_trans hab hb)]
  intro heq
  have hnumbers := congrArg (fun z : VectorRegister => z.number.toNat) (Option.some.inj heq)
  rw [h.number hc hw (List.getElem?_eq_getElem hb),
    h.number hc hw (List.getElem?_eq_getElem (Nat.lt_trans hab hb))] at hnumbers
  omega

end Instruction.Counts

/-- Registers follow each other exactly if each one is the first one plus its position, modulo 32,
whatever bytes they are and however many. So an accepted call of an instruction that names
consecutive registers names different ones that exist, and all of them follow from the five bits of
the word that hold the first. -/
theorem tuple_follows_first :
    (∀ zs : List VectorRegister, VectorRegister.sequential zs = true ↔
      ∀ z, zs.head? = some z → ∀ k r, zs[k]? = some r → 0 < k →
        r.number.toNat = (z.number.toNat + k) % 32) ∧
    ∀ g ∈ tuples, ∀ name ∈ g.names, ∃ i ∈ Catalogue.instructions, i.name = name ∧
      ∀ (features : FeatureSet) (c : Call) (w : Word), c.instruction = i →
        c.encode features = .ok w →
          (g.slots.map (vectorAt c.operands)).Nodup ∧
          ∀ k slot, g.slots[k]? = some slot → ∃ z, c.operands[slot]? = some (.vector z) ∧
            z.number.toNat < 32 ∧ z.number.toNat = (((w >>> g.lsb) &&& 31).toNat + k) % 32 := by
  refine ⟨VectorRegister.sequential_iff, ?_⟩
  intro g hg name hname
  obtain ⟨i, hi, hin, hcounts⟩ := Catalogue.counts_of_ordersRegisters g hg name hname
  have hmem : i ∈ Catalogue.instructions := (List.mem_filter.mp hi).1
  refine ⟨i, hmem, hin, ?_⟩
  rintro features c w rfl hw
  refine ⟨hcounts.nodup hmem hw, ?_⟩
  intro k slot hk
  have hnumber := hcounts.number hmem hw hk
  refine ⟨vectorAt c.operands slot, ?_, by omega, hnumber⟩
  exact vector_of_kind c.typed (hcounts.vectors slot (List.mem_of_getElem? hk))

private def loadFour : Family :=
  Transfer.structured 4 .zeroing
    [⟨"Ld4b", "ld4b", 0xa460e000⟩, ⟨"Ld4h", "ld4h", 0xa4e0e000⟩,
      ⟨"Ld4w", "ld4w", 0xa560e000⟩, ⟨"Ld4d", "ld4d", 0xa5e0e000⟩]

private def wrappedLoad : Call :=
  ⟨loadFour.instruction ⟨"Ld4b", "ld4b", 0xa460e000⟩,
    [.vector ⟨30⟩, .vector ⟨31⟩, .vector ⟨0⟩, .vector ⟨1⟩, .predicate .zeroing ⟨3⟩, .general (.x 2),
      .int32 4], rfl⟩

theorem tuple_follows_first_wrapped :
    wrappedLoad.encode .empty = .ok 0xa461ec5e ∧
      ∃ z, wrappedLoad.operands[2]? = some (.vector z) ∧
        z.number.toNat = (((0xa461ec5e : Word) >>> 0 &&& 31).toNat + 2) % 32 := by
  have hgroup :
      ⟨["Ld4b", "Ld4h", "Ld4w", "Ld4d", "St4b", "St4h", "St4w", "St4d"], [0, 1, 2, 3], 0⟩ ∈
        tuples := List.mem_of_getElem? (i := 2) rfl
  have hfamily : loadFour ∈ Catalogue.families :=
    List.mem_append_right _ (List.mem_of_getElem? (i := 2) rfl)
  have hword : wrappedLoad.encode .empty = .ok 0xa461ec5e := by decide +kernel
  obtain ⟨i, hi, hname, h⟩ := tuple_follows_first.2 _ hgroup "Ld4b" (by decide)
  have heq : wrappedLoad.instruction = i :=
    Catalogue.eq_of_name (Catalogue.mem_of_family hfamily List.mem_cons_self) hi hname.symm
  obtain ⟨z, hz, -, hnumber⟩ := (h .empty wrappedLoad _ heq hword).2 2 2 rfl
  exact ⟨hword, z, hz, hnumber⟩

end ScalableVector
