import ScalableVector.Proofs.Fit

/-!
# Operands with the same word

Two lists of operands that one encoding accepts with the same word agree in every bit that a field
holds. Where a field holds enough bits to tell the accepted numbers apart, the numbers are equal,
and where also the width of a general register is settled, the registers are.
-/

namespace ScalableVector

namespace Field

def reach (f : Field) : Nat := f.pieces.foldr (fun p n => max (p.start + p.width) n) 0

def holdsBit (f : Field) (k : Nat) : Bool :=
  f.pieces.any fun p => p.start ≤ k && k < p.start + p.width

def holds (n : Nat) (f : Field) : Bool := (List.range n).all f.holdsBit

end Field

def Code.isOperand (slot : Nat) : Code → Bool
  | .operand s => s == slot
  | _ => false

theorem Code.eq_of_isOperand {slot : Nat} {c : Code} (h : c.isOperand slot = true) :
    c = .operand slot := by
  cases c with
  | operand s => rw [beq_iff_eq.mp h]
  | _ => cases h

def OperandKind.numbered : OperandKind → Bool
  | .general | .address | .float => false
  | _ => true

namespace Encoding

/-- Two lists of operands that an encoding accepts with the same word. -/
structure Twins (e : Encoding) (signature : List OperandKind) (a b : List Operand) : Prop where
  separate : e.Separate
  typed_left : a.map Operand.kind = signature
  typed_right : b.map Operand.kind = signature
  accepted_left : e.fault a = none
  accepted_right : e.fault b = none
  rotations_left : RotationsDefined a
  rotations_right : RotationsDefined b
  word : e.word a = e.word b

def holdsAll (e : Encoding) (signature : List OperandKind) (f : Field) : Bool :=
  (e.support signature f.code).all fun r => (List.range' r.first r.count).all f.holdsBit

/-- The word and the checks determine the number in a slot: there is one candidate only, or a field
holds enough bits to tell the candidates apart. -/
def givesNumber (e : Encoding) (signature : List OperandKind) (slot : Nat) : Bool :=
  (e.ranges signature slot).any fun r =>
    decide (r.1 = r.2) || e.fields.any fun f =>
      f.code.isOperand slot && decide (f.reach ≤ 32) && f.holds f.reach &&
        decide (r.2 - r.1 < (1 <<< f.reach : Nat))

def holdsWidth (e : Encoding) (slot : Nat) : Bool :=
  e.fields.any fun f =>
    match f.code with
    | .is64 s => s == slot && f.holds 1
    | _ => false

def givesWidth (e : Encoding) (signature : List OperandKind) (slot : Nat) : Bool :=
  e.holdsWidth slot || e.checks.any fun
    | .wide s | .offset s => s == slot
    | .elementRegister element s =>
      s == slot && signature[element]? == some .element && e.givesNumber signature element
    | .sameWidth s t => s == slot && e.holdsWidth t || t == slot && e.holdsWidth s
    | _ => false

def asksValid (e : Encoding) (slot : Nat) : Bool :=
  e.checks.any fun
    | .register s | .wide s | .offset s | .elementRegister _ s => s == slot
    | _ => false

end Encoding

theorem Operand.eq_of_value {x y : Operand} (hk : x.kind = y.kind)
    (hn : x.kind.numbered = true) (hv : x.value = y.value) : x = y := by
  cases x <;> cases y <;> cases hk <;> try cases hn
  case element.element s t | vector.vector s t | predicate.predicate _ s t | scalar.scalar s t |
      rotation.rotation s t | pattern.pattern s t =>
    obtain ⟨m⟩ := s
    obtain ⟨n⟩ := t
    simp only [Operand.value] at hv
    rw [UInt8.toNat_inj.mp (by omega : m.toNat = n.toNat)]
  case form.form s t => cases s <;> cases t <;> first | rfl | cases hv
  case int32.int32 m n => rw [Int32.toInt_inj.mp hv]
  case int64.int64 m n => rw [Int64.toInt_inj.mp hv]
  case uint32.uint32 m n =>
    simp only [Operand.value] at hv
    rw [UInt32.toNat_inj.mp (by omega : m.toNat = n.toNat)]
  case flag.flag m n => cases m <;> cases n <;> first | rfl | cases hv

theorem GeneralRegister.eq_of_index {r s : GeneralRegister} (hr : r.isValid = true)
    (hs : s.isValid = true) (hi : r.index.toNat = s.index.toNat) (hw : r.is64 = s.is64) :
    r = s := by
  obtain ⟨m⟩ := r
  obtain ⟨n⟩ := s
  have hm : m.toNat < 64 := UInt8.lt_iff_toNat_lt.mp (of_decide_eq_true hr)
  have hn : n.toNat < 64 := UInt8.lt_iff_toNat_lt.mp (of_decide_eq_true hs)
  have hmod (k : UInt8) : (k &&& 31).toNat = k.toNat % 32 := by
    rw [UInt8.toNat_and]
    exact Nat.and_two_pow_sub_one_eq_mod k.toNat 5
  have h32 (k : UInt8) : decide (k < 32) = decide (k.toNat < 32) := by
    simp [UInt8.lt_iff_toNat_lt]
  simp only [GeneralRegister.index, hmod] at hi
  simp only [GeneralRegister.is64, h32, decide_eq_decide] at hw
  rw [UInt8.toNat_inj.mp (by omega : m.toNat = n.toNat)]

namespace Encoding.Twins

variable {e : Encoding} {signature : List OperandKind} {a b : List Operand}

theorem bit_agrees (h : e.Twins signature a b) {f : Field} (hf : f ∈ e.fields) {k : Nat}
    (hk : f.holdsBit k = true) :
    (f.code.value a).getLsbD k = (f.code.value b).getLsbD k := by
  obtain ⟨p, hp, hpk⟩ := List.any_eq_true.mp hk
  simp only [Bool.and_eq_true, decide_eq_true_eq] at hpk
  have hmem := mem_pieces hf hp
  have hs : (f.code.value a).extractLsb' p.start p.width =
      (f.code.value b).extractLsb' p.start p.width := by
    rw [← slice_word h.separate a hmem, ← slice_word h.separate b hmem, h.word]
  have hbit := congrArg (fun v => v.getLsbD (k - p.start)) hs
  simpa only [BitVec.getLsbD_extractLsb', show p.start + (k - p.start) = k by omega,
    show k - p.start < p.width by omega, decide_true, Bool.true_and] using hbit

theorem code_agrees (h : e.Twins signature a b) {f : Field} (hf : f ∈ e.fields) {n : Nat}
    (hn : f.holds n = true) :
    (f.code.value a).setWidth n = (f.code.value b).setWidth n := by
  apply BitVec.eq_of_getLsbD_eq
  intro k hk
  have hp := List.all_eq_true.mp hn k (List.mem_range.mpr hk)
  simp only [BitVec.getLsbD_setWidth, h.bit_agrees hf hp]

/-- A field that holds all bits that can be set gives its number back. -/
theorem number_agrees (h : e.Twins signature a b) {f : Field} (hf : f ∈ e.fields)
    (hall : e.holdsAll signature f = true) : f.code.value a = f.code.value b := by
  have held {v : Word} (hv : BitRun.Support (e.support signature f.code) v) {k : Nat}
      (hk : v.getLsbD k = true) : f.holdsBit k = true := by
    obtain ⟨r, hr, hfirst, hlast⟩ := hv k hk
    exact List.all_eq_true.mp (List.all_eq_true.mp hall r hr) k
      (List.mem_range'_1.mpr ⟨hfirst, hlast⟩)
  apply BitVec.eq_of_getLsbD_eq
  intro k _
  rw [Bool.eq_iff_iff]
  constructor
  · intro hk
    rwa [← h.bit_agrees hf (held (supports h.typed_left h.accepted_left _) hk)]
  · intro hk
    rwa [h.bit_agrees hf (held (supports h.typed_right h.accepted_right _) hk)]

theorem placed_agrees (h : e.Twins signature a b) {f : Field} (hf : f ∈ e.fields) :
    f.placed (f.code.value a) = f.placed (f.code.value b) := by
  apply List.foldr_ext
  intro p hp v
  have hmem := mem_pieces hf hp
  rw [← word_and_mask h.separate a hmem, ← word_and_mask h.separate b hmem, h.word]

theorem emod_of_setWidth {n : Nat} (hn : n ≤ 32) {x y : Int}
    (h : (BitVec.ofInt 32 x).setWidth n = (BitVec.ofInt 32 y).setWidth n) :
    x % (1 <<< n : Nat) = y % (1 <<< n : Nat) := by
  rw [Nat.one_shiftLeft]
  have hd : ((2 ^ n : Nat) : Int) ∣ (2 ^ 32 : Nat) :=
    Int.natCast_dvd_natCast.mpr (Nat.pow_dvd_pow 2 hn)
  have hz (z : Int) : (((BitVec.ofInt 32 z).setWidth n).toNat : Int) = z % (2 ^ n : Nat) := by
    rw [BitVec.toNat_setWidth, BitVec.toNat_ofInt, Int.natCast_emod,
      Int.toNat_of_nonneg (Int.emod_nonneg _ (by decide)), Int.emod_emod_of_dvd _ hd]
  rw [← hz x, h, hz y]

theorem eq_of_emod {m : Nat} {x y lo hi : Int} (h : x % m = y % m)
    (hx : lo ≤ x ∧ x ≤ hi) (hy : lo ≤ y ∧ y ≤ hi) (hr : hi - lo < m) : x = y := by
  have hs : (x - lo) % m = (y - lo) % m := by rw [Int.sub_emod, h, ← Int.sub_emod]
  rw [Int.emod_eq_of_lt (by omega) (by omega), Int.emod_eq_of_lt (by omega) (by omega)] at hs
  omega

theorem value_eq (h : e.Twins signature a b) {slot : Nat}
    (hg : e.givesNumber signature slot = true) : valueAt a slot = valueAt b slot := by
  obtain ⟨r, hr, hg⟩ := List.any_eq_true.mp hg
  have ha := value_mem_range h.typed_left h.accepted_left h.rotations_left hr
  have hb := value_mem_range h.typed_right h.accepted_right h.rotations_right hr
  rcases Bool.or_eq_true_iff.mp hg with hone | hf
  · have := of_decide_eq_true hone
    omega
  · obtain ⟨f, hf, hg⟩ := List.any_eq_true.mp hf
    simp only [Bool.and_eq_true, decide_eq_true_eq] at hg
    obtain ⟨⟨⟨hcode, hreach⟩, hholds⟩, hlt⟩ := hg
    have hv := h.code_agrees hf hholds
    rw [Code.eq_of_isOperand hcode] at hv
    exact eq_of_emod (emod_of_setWidth hreach hv) ha hb (by exact_mod_cast hlt)

theorem same_kind (h : e.Twins signature a b) {slot : Nat} {kind : OperandKind}
    (hk : signature[slot]? = some kind) :
    (operandAt a slot).kind = kind ∧ (operandAt b slot).kind = kind :=
  ⟨kind_operandAt h.typed_left hk, kind_operandAt h.typed_right hk⟩

private theorem element_eq (h : e.Twins signature a b) {slot : Nat}
    (hk : signature[slot]? = some .element) (hg : e.givesNumber signature slot = true) :
    elementAt a slot = elementAt b slot := by
  obtain ⟨ha, hb⟩ := h.same_kind hk
  have ho : operandAt a slot = operandAt b slot :=
    Operand.eq_of_value (ha.trans hb.symm) (by rw [ha]; rfl) (h.value_eq hg)
  rw [elementAt, ho, elementAt]

private theorem holdsWidth_eq (h : e.Twins signature a b) {slot : Nat}
    (hg : e.holdsWidth slot = true) : (generalAt a slot).is64 = (generalAt b slot).is64 := by
  obtain ⟨f, hf, hg⟩ := List.any_eq_true.mp hg
  cases hc : f.code with
  | is64 s =>
    simp only [hc, Bool.and_eq_true, beq_iff_eq] at hg
    obtain ⟨rfl, hholds⟩ := hg
    have hv := congrArg BitVec.toNat (h.code_agrees hf hholds)
    rw [hc] at hv
    simp only [Code.value, BitVec.toNat_setWidth, BitVec.toNat_ofNat] at hv
    revert hv
    cases (generalAt a s).is64 <;> cases (generalAt b s).is64 <;> simp
  | _ => simp [hc] at hg

private theorem is64_of_wide {ops : List Operand} {slot : Nat}
    (h : Check.wideFault ops slot = none) : (generalAt ops slot).is64 = true := by
  rw [Check.wideFault, Option.or_eq_none_iff] at h
  have hw := h.2
  split at hw
  · assumption
  · cases hw

private theorem is64_of_element {ops : List Operand} {element slot : Nat}
    (h : (Check.elementRegister element slot).fault ops = none) :
    decide (elementAt ops element = .double) = (generalAt ops slot).is64 := by
  rw [Check.fault, Option.or_eq_none_iff] at h
  have hw := h.2
  split at hw
  · assumption
  · cases hw

private theorem is64_of_sameWidth {ops : List Operand} {s t : Nat}
    (h : (Check.sameWidth s t).fault ops = none) :
    (generalAt ops s).is64 = (generalAt ops t).is64 := by
  rw [Check.fault] at h
  split at h
  · assumption
  · cases h

private theorem width_eq (h : e.Twins signature a b) {slot : Nat}
    (hg : e.givesWidth signature slot = true) :
    (generalAt a slot).is64 = (generalAt b slot).is64 := by
  rcases Bool.or_eq_true_iff.mp hg with hg | hg
  · exact h.holdsWidth_eq hg
  · obtain ⟨c, hc, hg⟩ := List.any_eq_true.mp hg
    have ha := fault_eq_none.mp h.accepted_left c hc
    have hb := fault_eq_none.mp h.accepted_right c hc
    cases c with
    | wide s =>
      cases beq_iff_eq.mp hg
      rw [is64_of_wide ha, is64_of_wide hb]
    | offset s =>
      cases beq_iff_eq.mp hg
      rw [Check.fault, Option.or_eq_none_iff] at ha hb
      rw [is64_of_wide ha.1, is64_of_wide hb.1]
    | elementRegister element s =>
      simp only [Bool.and_eq_true, beq_iff_eq] at hg
      obtain ⟨⟨rfl, hk⟩, hn⟩ := hg
      rw [← is64_of_element ha, ← is64_of_element hb, h.element_eq hk hn]
    | sameWidth s t =>
      simp only [Bool.or_eq_true, Bool.and_eq_true, beq_iff_eq] at hg
      rcases hg with ⟨rfl, hw⟩ | ⟨rfl, hw⟩
      · rw [is64_of_sameWidth ha, is64_of_sameWidth hb, h.holdsWidth_eq hw]
      · rw [← is64_of_sameWidth ha, ← is64_of_sameWidth hb, h.holdsWidth_eq hw]
    | _ => cases hg

private theorem inFile_of_asksValid {ops : List Operand} {slot : Nat} (hf : e.fault ops = none)
    (h : e.asksValid slot = true) : (operandAt ops slot).inFile = true := by
  obtain ⟨c, hc, h⟩ := List.any_eq_true.mp h
  have hn := fault_eq_none.mp hf c hc
  cases c with
  | register s =>
    cases beq_iff_eq.mp h
    exact Check.inFile_of_registerFault hn
  | wide s =>
    cases beq_iff_eq.mp h
    exact Check.inFile_of_registerFault (Option.or_eq_none_iff.mp hn).1
  | offset s =>
    cases beq_iff_eq.mp h
    exact Check.inFile_of_registerFault (Option.or_eq_none_iff.mp (Option.or_eq_none_iff.mp hn).1).1
  | elementRegister element s =>
    cases beq_iff_eq.mp h
    exact Check.inFile_of_registerFault (Option.or_eq_none_iff.mp hn).1
  | _ => cases h

theorem general_eq (h : e.Twins signature a b) {slot : Nat}
    (hk : signature[slot]? = some .general) (hn : e.givesNumber signature slot = true)
    (hv : e.asksValid slot = true) (hw : e.givesWidth signature slot = true) :
    operandAt a slot = operandAt b slot := by
  obtain ⟨ha, hb⟩ := h.same_kind hk
  have hva := inFile_of_asksValid h.accepted_left hv
  have hvb := inFile_of_asksValid h.accepted_right hv
  have hnum := h.value_eq hn
  have hwidth := h.width_eq hw
  simp only [valueAt, generalAt] at hnum hwidth
  cases hoa : operandAt a slot with
  | general r =>
    cases hob : operandAt b slot with
    | general s =>
      rw [hoa] at hva hnum hwidth
      rw [hob] at hvb hnum hwidth
      simp only [Operand.value] at hnum
      rw [GeneralRegister.eq_of_index hva hvb (by omega) hwidth]
    | _ => simp [hob, Operand.kind] at hb
  | _ => simp [hoa, Operand.kind] at ha

theorem operand_eq_of_value (h : e.Twins signature a b) {slot : Nat} {kind : OperandKind}
    (hk : signature[slot]? = some kind) (hn : kind.numbered = true)
    (hv : valueAt a slot = valueAt b slot) : operandAt a slot = operandAt b slot := by
  obtain ⟨ha, hb⟩ := h.same_kind hk
  exact Operand.eq_of_value (ha.trans hb.symm) (by rwa [ha]) hv

end Encoding.Twins

end ScalableVector
