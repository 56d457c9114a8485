import ScalableVector.Proofs.Code
import ScalableVector.Proofs.Template

/-!
# Ranges of operands

The kind of an operand and the checks of an encoding bound the number it stands for. The bounds are
computed from the encoding; an accepted operand lies within each of them.
-/

namespace ScalableVector

/-- Every rotation is one of the four quarter turns. -/
def RotationsDefined (ops : List Operand) : Prop :=
  ∀ r, Operand.rotation r ∈ ops → r.quarters ≤ 3

theorem kind_operandAt {ops : List Operand} {signature : List OperandKind} {slot : Nat}
    {kind : OperandKind} (ht : ops.map Operand.kind = signature)
    (hk : signature[slot]? = some kind) : (operandAt ops slot).kind = kind := by
  rw [← ht, List.getElem?_map, Option.map_eq_some_iff] at hk
  obtain ⟨o, ho, rfl⟩ := hk
  rw [operandAt, List.getD_eq_getElem?_getD, ho]
  rfl

def OperandKind.range : OperandKind → Option (Int × Int)
  | .general => some (0, 31)
  | .flag => some (0, 1)
  | _ => none

def OperandKind.fileRange : OperandKind → Option (Int × Int)
  | .vector | .scalar => some (0, 31)
  | .predicate _ => some (0, 15)
  | _ => none

def ElementSizes.range (sizes : ElementSizes) : Int × Int :=
  sizes.foldr (fun s r => (min s.code.toNat r.1, max s.code.toNat r.2)) (255, 0)

/-- Bounds on the number of an operand of the given kind in a slot that follow from a check. -/
def Check.range (kind : OperandKind) (slot : Nat) : Check → Option (Int × Int)
  | .register s => if s = slot then kind.fileRange else none
  | .governing s => if s = slot ∧ kind.fileRange = some (0, 15) then some (0, 7) else none
  | .size s allowed =>
    if s = slot ∧ kind = .element then some (ElementSizes.range allowed) else none
  | .bounds _ s lo hi => if s = slot then some (lo, hi) else none
  | .rotation s => if s = slot ∧ kind = .rotation then some (1, 3) else none
  | _ => none

/-- Bounds on the number in a slot that follow from the kind and the checks. -/
def Encoding.checkedRanges (e : Encoding) (signature : List OperandKind) (slot : Nat) :
    List (Int × Int) :=
  match signature[slot]? with
  | none => []
  | some kind => kind.range.toList ++ e.checks.filterMap (Check.range kind slot)

/-- The bounds in a slot, if every rotation is a quarter turn. -/
def Encoding.ranges (e : Encoding) (signature : List OperandKind) (slot : Nat) :
    List (Int × Int) :=
  (if signature[slot]? = some .rotation then [(0, 3)] else []) ++ e.checkedRanges signature slot

theorem rotation_mem_of_operandAt {ops : List Operand} {slot : Nat} {r : Rotation}
    (h : operandAt ops slot = .rotation r) : .rotation r ∈ ops := by
  rw [operandAt, List.getD_eq_getElem?_getD] at h
  cases hg : ops[slot]? with
  | none => rw [hg] at h; cases h
  | some o =>
    rw [hg] at h
    cases h
    exact List.mem_of_getElem? hg

private theorem value_of_kind_range {ops : List Operand} {slot : Nat} {r : Int × Int}
    (h : (operandAt ops slot).kind.range = some r) :
    r.1 ≤ valueAt ops slot ∧ valueAt ops slot ≤ r.2 := by
  rw [valueAt]
  cases ho : operandAt ops slot with
  | general g =>
    rw [ho] at h
    cases h
    have hi : g.index.toNat ≤ 31 := by
      rw [GeneralRegister.index, UInt8.toNat_and]
      exact Nat.and_le_right
    simp only [Operand.value]
    omega
  | flag b =>
    rw [ho] at h
    cases h
    cases b <;> simp [Operand.value]
  | _ =>
    rw [ho] at h
    cases h

private theorem value_of_fileRange {o : Operand} {r : Int × Int} (hf : o.inFile = true)
    (h : o.kind.fileRange = some r) : r.1 ≤ o.value ∧ o.value ≤ r.2 := by
  cases o with
  | vector z =>
    cases h
    have hz : z.number.toNat < 32 := UInt8.lt_iff_toNat_lt.mp (of_decide_eq_true hf)
    simp only [Operand.value]
    omega
  | scalar v =>
    cases h
    have hv : v.number.toNat < 32 := UInt8.lt_iff_toNat_lt.mp (of_decide_eq_true hf)
    simp only [Operand.value]
    omega
  | predicate _ p =>
    cases h
    have hp : p.number.toNat < 16 := UInt8.lt_iff_toNat_lt.mp (of_decide_eq_true hf)
    simp only [Operand.value]
    omega
  | _ => cases h

private theorem code_of_sizes_range {s : ElementSize} {sizes : ElementSizes} (h : s ∈ sizes) :
    (ElementSizes.range sizes).1 ≤ s.code.toNat ∧ s.code.toNat ≤ (ElementSizes.range sizes).2 := by
  induction sizes with
  | nil => cases h
  | cons t ts ih =>
    rw [ElementSizes.range, List.foldr_cons, ← ElementSizes.range]
    rcases List.mem_cons.mp h with rfl | h
    · dsimp only
      omega
    · have := ih h
      dsimp only
      omega

theorem Check.inFile_of_registerFault {ops : List Operand} {slot : Nat}
    (h : Check.registerFault ops slot = none) : (operandAt ops slot).inFile = true := by
  rw [Check.registerFault] at h
  split at h
  · assumption
  · cases h

theorem Check.le_of_governing {ops : List Operand} {slot : Nat}
    (h : (Check.governing slot).fault ops = none) : valueAt ops slot ≤ 7 := by
  rw [Check.fault] at h
  split at h
  · assumption
  · cases h

theorem Check.mem_of_rotation {ops : List Operand} {slot : Nat}
    (h : (Check.rotation slot).fault ops = none) : rotationAt ops slot ∈ [⟨1⟩, ⟨3⟩] := by
  rw [Check.fault] at h
  split at h
  · assumption
  · cases h

private theorem value_nonneg_of_predicate {o : Operand} (hk : o.kind.fileRange = some (0, 15)) :
    0 ≤ o.value := by
  cases o with
  | predicate _ p => exact Int.natCast_nonneg _
  | _ => simp [Operand.kind, OperandKind.fileRange] at hk

private theorem value_of_element {ops : List Operand} {slot : Nat} {allowed : ElementSizes}
    (hk : (operandAt ops slot).kind = .element) (h : elementAt ops slot ∈ allowed) :
    (ElementSizes.range allowed).1 ≤ valueAt ops slot ∧
      valueAt ops slot ≤ (ElementSizes.range allowed).2 := by
  rw [elementAt] at h
  rw [valueAt]
  cases ho : operandAt ops slot with
  | element z =>
    rw [ho] at h
    exact code_of_sizes_range h
  | _ => simp [ho, Operand.kind] at hk

private theorem value_of_rotation {ops : List Operand} {slot : Nat}
    (hk : (operandAt ops slot).kind = .rotation) (h : rotationAt ops slot ∈ [⟨1⟩, ⟨3⟩]) :
    1 ≤ valueAt ops slot ∧ valueAt ops slot ≤ 3 := by
  rw [rotationAt] at h
  rw [valueAt]
  cases ho : operandAt ops slot with
  | rotation q =>
    rw [ho] at h
    simp only [List.mem_cons, List.not_mem_nil, or_false] at h
    rcases h with rfl | rfl <;> decide
  | _ => simp [ho, Operand.kind] at hk

private theorem value_of_check_range {ops : List Operand} {slot : Nat} {c : Check} {r : Int × Int}
    (hf : c.fault ops = none) (h : c.range (operandAt ops slot).kind slot = some r) :
    r.1 ≤ valueAt ops slot ∧ valueAt ops slot ≤ r.2 := by
  cases c with
  | register s =>
    obtain ⟨rfl, hr⟩ := Option.ite_none_right_eq_some.mp h
    exact value_of_fileRange (Check.inFile_of_registerFault hf) hr
  | governing s =>
    obtain ⟨⟨rfl, hk⟩, hr⟩ := Option.ite_none_right_eq_some.mp h
    cases hr
    exact ⟨value_nonneg_of_predicate hk, Check.le_of_governing hf⟩
  | size s allowed =>
    obtain ⟨⟨rfl, hk⟩, hr⟩ := Option.ite_none_right_eq_some.mp h
    cases hr
    exact value_of_element hk (Shift.sizeFault_eq_none.mp hf)
  | bounds what s lo hi =>
    obtain ⟨rfl, hr⟩ := Option.ite_none_right_eq_some.mp h
    cases hr
    exact Shift.boundsFault_eq_none.mp hf
  | rotation s =>
    obtain ⟨⟨rfl, hk⟩, hr⟩ := Option.ite_none_right_eq_some.mp h
    cases hr
    exact value_of_rotation hk (Check.mem_of_rotation hf)
  | _ => cases h

namespace Encoding

variable {e : Encoding} {signature : List OperandKind} {ops : List Operand} {slot : Nat}
  {r : Int × Int}

theorem value_mem_checkedRange (ht : ops.map Operand.kind = signature) (hf : e.fault ops = none)
    (h : r ∈ e.checkedRanges signature slot) : r.1 ≤ valueAt ops slot ∧ valueAt ops slot ≤ r.2 := by
  rw [checkedRanges] at h
  split at h
  · cases h
  · next kind hk =>
    have hkind := kind_operandAt ht hk
    rcases List.mem_append.mp h with h | h
    · rw [Option.mem_toList, ← hkind] at h
      exact value_of_kind_range h
    · obtain ⟨c, hc, hcr⟩ := List.mem_filterMap.mp h
      rw [← hkind] at hcr
      exact value_of_check_range (fault_eq_none.mp hf c hc) hcr

theorem value_mem_range (ht : ops.map Operand.kind = signature) (hf : e.fault ops = none)
    (hr : RotationsDefined ops) (h : r ∈ e.ranges signature slot) :
    r.1 ≤ valueAt ops slot ∧ valueAt ops slot ≤ r.2 := by
  rcases List.mem_append.mp h with h | h
  · split at h
    · next hk =>
      cases List.mem_singleton.mp h
      have hkind := kind_operandAt ht hk
      rw [valueAt]
      cases ho : operandAt ops slot with
      | rotation q =>
        have hq : q.quarters.toNat ≤ 3 := hr q (rotation_mem_of_operandAt ho)
        simp only [Operand.value]
        omega
      | _ => simp [ho, Operand.kind] at hkind
    · cases h
  · exact value_mem_checkedRange ht hf h

end Encoding

end ScalableVector
