import ScalableVector.Proofs.Gather

/-!
# The code of a shift

All shifts by an immediate hold the width of the elements and the amount in one number, whose bits
stand in three runs of the word: the width plus the amount for a left shift, twice the width minus
the amount for a right shift. The highest set bit of the number is the width, so that the word tells
width and amount apart.
-/

namespace ScalableVector

inductive ShiftGroup
  | plain (direction : ShiftDirection)
  | predicated (direction : ShiftDirection)
  | narrowing
  | widening
  deriving DecidableEq

/-- The operands of a shift other than element size and amount. Not all shifts have a predicate. -/
structure ShiftRegisters where
  zd : VectorRegister
  pg : PredicateRegister
  zn : VectorRegister

namespace ShiftGroup

def names : ShiftGroup → List String
  | plain .right => ["AsrImm", "LsrImm", "Ssra", "Usra", "Srsra", "Ursra", "Sri"]
  | plain .left => ["LslImm", "Sli"]
  | predicated .right => ["AsrImmPred", "LsrImmPred", "Asrd", "Srshr", "Urshr"]
  | predicated .left => ["LslImmPred", "Sqshl", "Uqshl", "Sqshlu"]
  | narrowing => ["Shrnb", "Shrnt", "Rshrnb", "Rshrnt", "Sqshrnb", "Sqshrnt", "Sqrshrnb",
      "Sqrshrnt", "Uqshrnb", "Uqshrnt", "Uqrshrnb", "Uqrshrnt", "Sqshrunb", "Sqshrunt",
      "Sqrshrunb", "Sqrshrunt"]
  | widening => ["Sshllb", "Sshllt", "Ushllb", "Ushllt"]

/-- The narrowing instructions without an amount, which stand for the shift by the whole width. -/
def extractions : List String := ["Sqxtnb", "Sqxtnt", "Uqxtnb", "Uqxtnt", "Sqxtunb", "Sqxtunt"]

def direction : ShiftGroup → ShiftDirection
  | plain d | predicated d => d
  | narrowing => .right
  | widening => .left

def sizes : ShiftGroup → ElementSizes
  | plain _ | predicated _ => [.byte, .half, .single, .double]
  | narrowing => [.byte, .half, .single]
  | widening => [.half, .single, .double]

/-- The width of the elements that are shifted. Those of a widening shift have half the width of the
destination. -/
def width (g : ShiftGroup) (size : ElementSize) : Nat :=
  match g with
  | widening => size.bits / 2
  | _ => size.bits

/-- The runs of the word that hold the code, from the lowest on. -/
def runs : ShiftGroup → List Piece
  | predicated _ => [⟨0, 3, 5⟩, ⟨3, 2, 8⟩, ⟨5, 2, 22⟩]
  | widening => [⟨0, 3, 16⟩, ⟨3, 2, 19⟩, ⟨5, 1, 22⟩]
  | _ => [⟨0, 3, 16⟩, ⟨3, 2, 19⟩, ⟨5, 2, 22⟩]

def operands (g : ShiftGroup) (r : ShiftRegisters) (size : ElementSize) (amount : UInt32) :
    List Operand :=
  match g with
  | predicated _ =>
    [.element size, .vector r.zd, .predicate .merging r.pg, .vector r.zn, .uint32 amount]
  | _ => [.element size, .vector r.zd, .vector r.zn, .uint32 amount]

/-- The registers exist, and a shift under a predicate overwrites its source. -/
def Legal (g : ShiftGroup) (r : ShiftRegisters) : Prop :=
  r.zd.number ≤ 31 ∧ r.zn.number ≤ 31 ∧
    match g with
    | predicated _ => r.pg.number ≤ 7 ∧ r.zn = r.zd
    | _ => True

def Admits (g : ShiftGroup) (size : ElementSize) (amount : Nat) : Prop :=
  match g.direction with
  | .left => amount < g.width size
  | .right => 1 ≤ amount ∧ amount ≤ g.width size

def code (g : ShiftGroup) (size : ElementSize) (amount : Nat) : Nat :=
  match g.direction with
  | .left => g.width size + amount
  | .right => 2 * g.width size - amount

/-- The amount that a code stands for. -/
def amountOf (g : ShiftGroup) (n : Nat) : Nat :=
  match g.direction with
  | .left => n - 2 ^ n.log2
  | .right => 2 * 2 ^ n.log2 - n

def shiftChecks : ShiftGroup → List Check
  | plain d => [.shift d 0 (.operand 3)]
  | predicated d => [.shift d 0 (.operand 4)]
  | narrowing => [.size 0 .narrow, .shift .right 0 (.operand 3)]
  | widening => [.longShift 0 3]

def registerChecks : ShiftGroup → List Check
  | predicated _ => [.register 1, .register 3, .governing 2, .aliased "zd" 1 "zdn" 3]
  | _ => [.register 1, .register 2]

def fields : ShiftGroup → List Field
  | plain d => ShiftImmediate.shiftFields d (.operand 3) 16
  | predicated d => ShiftImmediate.shiftFields d (.operand 4) 5
  | narrowing => ShiftImmediate.shiftFields .right (.operand 3) 16
  | widening => [⟨.longShift 0 3, [⟨0, none, 0⟩]⟩]

def amountSlot : ShiftGroup → Nat
  | predicated _ => 4
  | _ => 3

variable {g : ShiftGroup} {r : ShiftRegisters} {size : ElementSize}

private theorem elementAt_operands (g : ShiftGroup) (r : ShiftRegisters) (size : ElementSize)
    (amount : UInt32) :
    elementAt (g.operands r size amount) 0 = size := by
  cases g <;> rfl

private theorem valueAt_operands (g : ShiftGroup) (r : ShiftRegisters) (size : ElementSize)
    (amount : UInt32) :
    valueAt (g.operands r size amount) g.amountSlot = amount.toNat := by
  cases g <;> rfl

private theorem fault_registerChecks (h : g.Legal r) (amount : UInt32) :
    ∀ c ∈ g.registerChecks, c.fault (g.operands r size amount) = none := by
  obtain ⟨hd, hn, hpred⟩ := h
  cases g with
  | predicated d =>
    have hpg : valueAt ((predicated d).operands r size amount) 2 ≤ 7 :=
      Int.ofNat_le.mpr (UInt8.le_iff_toNat_le.mp hpred.1)
    have hsame : operandAt ((predicated d).operands r size amount) 1 =
        operandAt ((predicated d).operands r size amount) 3 :=
      congrArg Operand.vector hpred.2.symm
    simp only [registerChecks, List.forall_mem_cons]
    refine ⟨Check.registerFault_of_vector rfl hd, Check.registerFault_of_vector rfl hn,
      if_pos hpg, if_pos hsame, ?_⟩
    intro c hc
    cases hc
  | plain | narrowing | widening =>
    simp only [registerChecks, List.forall_mem_cons]
    refine ⟨Check.registerFault_of_vector rfl hd, Check.registerFault_of_vector rfl hn, ?_⟩
    intro c hc
    cases hc

private theorem amounts_iff {d : ShiftDirection} {width amount : Nat} :
    (Shift.amounts d width).1 ≤ amount ∧ amount ≤ (Shift.amounts d width).2 ↔
      match d with
      | .left => amount < width
      | .right => 1 ≤ amount ∧ amount ≤ width := by
  cases d <;> simp only [Shift.amounts] <;> omega

theorem fault_shiftChecks {ops : List Operand} {amount : Nat}
    (hamount : valueAt ops g.amountSlot = amount) :
    (∀ c ∈ g.shiftChecks, c.fault ops = none) ↔
      elementAt ops 0 ∈ g.sizes ∧ g.Admits (elementAt ops 0) amount := by
  cases g with
  | plain | predicated =>
    simp only [amountSlot] at hamount
    simp only [shiftChecks, List.forall_mem_singleton, Check.fault, ShiftAmount.value, hamount,
      Shift.fault_eq_none, amounts_iff]
    rfl
  | narrowing =>
    simp only [amountSlot] at hamount
    have hplain : elementAt ops 0 ∈ narrowing.sizes → elementAt ops 0 ∈ ElementSizes.plain := by
      have hsub : ∀ s ∈ narrowing.sizes, s ∈ ElementSizes.plain := by decide
      exact hsub _
    simp only [shiftChecks, List.forall_mem_cons, Check.fault, ShiftAmount.value, hamount,
      Shift.sizeFault_eq_none, Shift.fault_eq_none, amounts_iff]
    constructor
    · rintro ⟨hs, ⟨-, hin⟩, -⟩
      exact ⟨hs, hin⟩
    · rintro ⟨hs, hin⟩
      exact ⟨hs, ⟨hplain hs, hin⟩, fun _ hc => by cases hc⟩
  | widening =>
    simp only [amountSlot] at hamount
    simp only [shiftChecks, List.forall_mem_singleton, Check.fault, hamount,
      Shift.longFault_eq_none]
    apply and_congr_right
    intro hs
    have hwidth : Shift.sourceWidth (elementAt ops 0) = widening.width (elementAt ops 0) := by
      have hall : ∀ s ∈ ElementSizes.wide, Shift.sourceWidth s = widening.width s := by decide
      exact hall _ hs
    rw [hwidth]
    exact amounts_iff (d := .left)

private theorem exists_width (hs : size ∈ g.sizes) :
    ∃ k, g.width size = 2 ^ k := by
  have hplain : ∀ s ∈ ElementSizes.plain, ∃ k < 7, s.bits = 2 ^ k := by decide
  have hnarrow : ∀ s ∈ ElementSizes.narrow, ∃ k < 7, s.bits = 2 ^ k := by decide
  have hwide : ∀ s ∈ ElementSizes.wide, ∃ k < 6, s.bits / 2 = 2 ^ k := by decide
  cases g with
  | plain | predicated =>
    obtain ⟨k, -, hk⟩ := hplain size hs
    exact ⟨k, hk⟩
  | narrowing =>
    obtain ⟨k, -, hk⟩ := hnarrow size hs
    exact ⟨k, hk⟩
  | widening =>
    obtain ⟨k, -, hk⟩ := hwide size hs
    exact ⟨k, hk⟩

/-- The code lies between the width and twice the width. -/
private theorem code_bounds {amount : Nat} (h : g.Admits size amount) :
    g.width size ≤ g.code size amount ∧ g.code size amount < 2 * g.width size := by
  rw [Admits] at h
  rw [code]
  cases hd : g.direction <;> rw [hd] at h <;> simp only at h ⊢ <;> omega

private theorem log2_code {amount : Nat} (hs : size ∈ g.sizes) (h : g.Admits size amount) :
    2 ^ (g.code size amount).log2 = g.width size ∧ g.amountOf (g.code size amount) = amount := by
  obtain ⟨k, hk⟩ := exists_width hs
  have hbounds := code_bounds h
  have hpos : 0 < 2 ^ k := Nat.two_pow_pos k
  have hlog : (g.code size amount).log2 = k := by
    rw [Nat.log2_eq_iff (by omega), Nat.pow_succ]
    omega
  have hwidth : 2 ^ (g.code size amount).log2 = g.width size := by rw [hlog, hk]
  refine ⟨hwidth, ?_⟩
  rw [amountOf, hwidth]
  rw [Admits] at h
  rw [code]
  cases hd : g.direction <;> rw [hd] at h <;> simp only at h ⊢ <;> omega

def signature : ShiftGroup → List OperandKind
  | predicated _ => [.element, .vector, .merging, .vector, .uint32]
  | _ => [.element, .vector, .vector, .uint32]

def all : List ShiftGroup :=
  [plain .left, plain .right, predicated .left, predicated .right, narrowing, widening]

theorem mem_all (g : ShiftGroup) : g ∈ all := by
  cases g with
  | plain d | predicated d => cases d <;> decide
  | narrowing | widening => decide

theorem exists_entry : ∀ g ∈ all, ∀ name ∈ g.names,
    ∃ f ∈ ShiftImmediate.families, ∃ entry ∈ f.entries, entry.name = name ∧
      f.signature = g.signature ∧ FeatureSet.sve2.includes f.requirement = true ∧
      f.checks = g.shiftChecks ++ g.registerChecks ∧ ∀ field ∈ g.fields, field ∈ f.fields := by
  decide +kernel

theorem mem_families {f : Family} (hf : f ∈ ShiftImmediate.families) :
    f ∈ Catalogue.families := by
  simp only [Catalogue.families, List.mem_append, hf, or_true, true_or]

private theorem fault_encoding {f : Family} (entry : Entry)
    (hchecks : f.checks = g.shiftChecks ++ g.registerChecks) (hr : g.Legal r)
    (size : ElementSize) (amount : UInt32) :
    (f.encoding entry).fault (g.operands r size amount) = none ↔
      size ∈ g.sizes ∧ g.Admits size amount.toNat := by
  have hshift := fault_shiftChecks (valueAt_operands g r size amount)
  rw [elementAt_operands] at hshift
  rw [Encoding.fault_eq_none, ← hshift]
  simp only [Family.encoding, hchecks, List.forall_mem_append]
  exact and_iff_left (fault_registerChecks hr amount)

private theorem typed_operands (amount : UInt32) :
    (g.operands r size amount).map Operand.kind = g.signature := by
  cases g <;> rfl

private theorem gather_shiftFields {e : Encoding} {kinds : List OperandKind} {ops : List Operand}
    {d : ShiftDirection} {amount : ShiftAmount} {lsb : Nat}
    (hs : (e.trimmed kinds).Separate) (ht : ops.map Operand.kind = kinds)
    (hf : e.fault ops = none)
    (hfields : ∀ field ∈ ShiftImmediate.shiftFields d amount lsb, field ∈ e.fields)
    (hcheck : Check.shift d 0 amount ∈ e.checks) :
    (gather (e.word ops) [⟨0, 3, lsb⟩, ⟨3, 2, lsb + 3⟩, ⟨5, 2, 22⟩] : Int) =
      Shift.code d (elementAt ops 0) (amount.value ops 0) := by
  rw [← Shift.value_split (Encoding.fault_eq_none.mp hf _ hcheck)]
  have hfits := Shift.split_fits d (elementAt ops 0) (BitVec.ofInt 32 (amount.value ops 0))
  -- a field that is trimmed to its width holds the whole part
  have slice (part : Shift.Part) (width place : Nat) (hwidth : width ≤ 32)
      (hsupport : e.support kinds (.shift part d 0 amount) = [⟨0, width⟩])
      (hmem : (⟨.shift part d 0 amount, [⟨0, none, place⟩]⟩ : Field) ∈ e.fields) :
      ((e.word ops).extractLsb' place width).toNat =
        ((Code.shift part d 0 amount).value ops).toNat % 2 ^ width := by
    have hpiece : (⟨0, width, place⟩ : Piece) ∈ (Field.trim
        (e.support kinds (.shift part d 0 amount))
        ⟨.shift part d 0 amount, [⟨0, none, place⟩]⟩).pieces := by
      rw [hsupport]
      simp [Field.trim, Field.pieces, Term.within, Term.piece, hwidth]
    have hslice := Encoding.slice_field hs ht hf hmem hpiece ⟨Nat.le_refl _, Nat.le_refl _, rfl⟩
    rw [hslice, BitVec.extractLsb'_toNat, Nat.shiftRight_zero]
  have himm3 := slice .imm3 3 lsb (by decide) rfl (hfields _ (by simp [ShiftImmediate.shiftFields]))
  have htszl := slice .tszl 2 (lsb + 3) (by decide) rfl
    (hfields _ (by simp [ShiftImmediate.shiftFields]))
  have htszh := slice .tszh 2 22 (by decide) rfl
    (hfields _ (by simp [ShiftImmediate.shiftFields]))
  simp only [Code.value, Shift.Fields.get] at himm3 htszl htszh
  rw [hfits.toNat_value]
  simp only [gather, himm3, htszl, htszh]
  obtain ⟨hh, hl, hi⟩ := hfits
  omega

private theorem gather_longShift {e : Encoding} {kinds : List OperandKind} {ops : List Operand}
    (hs : (e.trimmed kinds).Separate) (ht : ops.map Operand.kind = kinds)
    (hf : e.fault ops = none)
    (hmem : (⟨.longShift 0 3, [⟨0, none, 0⟩]⟩ : Field) ∈ e.fields)
    (hcheck : Check.longShift 0 3 ∈ e.checks) :
    (gather (e.word ops) widening.runs : Int) =
      Shift.sourceWidth (elementAt ops 0) + valueAt ops 3 := by
  have haccepted : Shift.longFault (elementAt ops 0) (valueAt ops 3) = none :=
    Encoding.fault_eq_none.mp hf _ hcheck
  have hbits := Shift.toNat_longBits haccepted
  have hpieces : (Field.trim (e.support kinds (.longShift 0 3))
      ⟨.longShift 0 3, [⟨0, none, 0⟩]⟩).pieces = [⟨16, 5, 16⟩, ⟨22, 1, 22⟩] := by
    rw [Encoding.support, if_pos hcheck]
    rfl
  have slice (q : Piece) (h : ∃ p ∈ [(⟨16, 5, 16⟩ : Piece), ⟨22, 1, 22⟩], q.Within p) :
      ((e.word ops).extractLsb' q.lsb q.width).toNat =
        (Shift.longBits (elementAt ops 0) (BitVec.ofInt 32 (valueAt ops 3))).toNat / 2 ^ q.start %
          2 ^ q.width := by
    obtain ⟨p, hp, hq⟩ := h
    rw [← hpieces] at hp
    rw [Encoding.slice_field hs ht hf hmem hp hq, BitVec.extractLsb'_toNat,
      Nat.shiftRight_eq_div_pow]
    rfl
  have hlow := slice ⟨16, 3, 16⟩ (by decide)
  have hmiddle := slice ⟨19, 2, 19⟩ (by decide)
  have hhigh := slice ⟨22, 1, 22⟩ (by decide)
  simp only at hlow hmiddle hhigh
  simp only [runs, gather, hlow, hmiddle, hhigh]
  obtain ⟨hsize, h0, hlt⟩ := Shift.longFault_eq_none.mp haccepted
  -- the mark of each size is the width of the sources, at the place of the amount
  have hmarks : ((1 : Word) <<< 19).toNat = 2 ^ 19 ∧ ((1 : Word) <<< 20).toNat = 2 ^ 20 ∧
      ((1 : Word) <<< 22).toNat = 2 ^ 22 := by decide
  rcases Shift.cases_of_wide hsize with ⟨-, hw, hm⟩ | ⟨-, hw, hm⟩ | ⟨-, hw, hm⟩ <;>
    rw [hm] at hbits <;> simp only [hmarks] at hbits <;> omega

private theorem gather_encoding {f : Family} (hf : f ∈ ShiftImmediate.families) {entry : Entry}
    (he : entry ∈ f.entries) (hsignature : f.signature = g.signature)
    (hchecks : f.checks = g.shiftChecks ++ g.registerChecks)
    (hfields : ∀ field ∈ g.fields, field ∈ f.fields) {amount : UInt32}
    (hnone : (f.encoding entry).fault (g.operands r size amount) = none)
    (hadmits : g.Admits size amount.toNat) :
    gather ((f.encoding entry).word (g.operands r size amount)) g.runs =
      g.code size amount.toNat := by
  have hseparate := Catalogue.separate_of_family (mem_families hf) he
  have ht : (g.operands r size amount).map Operand.kind = f.signature := by
    rw [typed_operands, hsignature]
  have hcheck {c : Check} (hc : c ∈ g.shiftChecks) : c ∈ (f.encoding entry).checks := by
    show c ∈ f.checks
    rw [hchecks]
    exact List.mem_append_left _ hc
  have hbounds := code_bounds hadmits
  have hsize := elementAt_operands g r size amount
  have hamount := valueAt_operands g r size amount
  -- the code as a number that is not cut off at zero
  have hshift (d : ShiftDirection) (hd : g.direction = d) (hw : g.width size = size.bits) :
      Shift.code d size amount.toNat = (g.code size amount.toNat : Int) := by
    rw [code, hd, hw] at hbounds ⊢
    cases d <;> simp only [Shift.code] at hbounds ⊢ <;> omega
  apply Int.ofNat.inj
  cases g with
  | plain d | predicated d =>
    simp only [amountSlot] at hamount
    have hcode := gather_shiftFields hseparate ht hnone hfields (hcheck (by simp [shiftChecks]))
    rw [hsize, ShiftAmount.value, hamount, hshift d rfl rfl] at hcode
    exact hcode
  | narrowing =>
    simp only [amountSlot] at hamount
    have hcode := gather_shiftFields hseparate ht hnone hfields (hcheck (by simp [shiftChecks]))
    rw [hsize, ShiftAmount.value, hamount, hshift .right rfl rfl] at hcode
    exact hcode
  | widening =>
    simp only [amountSlot] at hamount
    have hcode := gather_longShift hseparate ht hnone (hfields _ List.mem_cons_self)
      (hcheck List.mem_cons_self)
    have hwidth : Shift.sourceWidth size = widening.width size := by
      have hall : ∀ s ∈ ElementSizes.wide, Shift.sourceWidth s = widening.width s := by decide
      have hcheck := Encoding.fault_eq_none.mp hnone _ (hcheck List.mem_cons_self)
      rw [← hsize]
      exact hall _ (Shift.longFault_eq_none.mp hcheck).1
    rw [hsize, hamount, hwidth] at hcode
    exact hcode

private theorem extracting_mem : ShiftImmediate.extracting ∈ ShiftImmediate.families := by
  simp [ShiftImmediate.families]

private theorem fault_extracting (entry : Entry) {zd zn : VectorRegister} (hd : zd.number ≤ 31)
    (hn : zn.number ≤ 31) (size : ElementSize) :
    (ShiftImmediate.extracting.encoding entry).fault [.element size, .vector zd, .vector zn] =
      none ↔ size ∈ narrowing.sizes := by
  have hzd : Check.registerFault [.element size, .vector zd, .vector zn] 1 = none :=
    Check.registerFault_of_vector rfl hd
  have hzn : Check.registerFault [.element size, .vector zd, .vector zn] 2 = none :=
    Check.registerFault_of_vector rfl hn
  rw [Encoding.fault_eq_none]
  constructor
  · intro h
    exact Shift.sizeFault_eq_none.mp (h _ List.mem_cons_self)
  · intro hs
    have hshift : Shift.fault .right size size.bits = none := by
      have hall : ∀ s ∈ narrowing.sizes, Shift.fault .right s s.bits = none := by decide
      exact hall size hs
    intro c hc
    simp only [Family.encoding, ShiftImmediate.extracting, ShiftImmediate.plainChecks,
      List.mem_cons, List.not_mem_nil, or_false] at hc
    rcases hc with rfl | rfl | rfl | rfl
    · exact Shift.sizeFault_eq_none.mpr hs
    · exact hshift
    · exact hzd
    · exact hzn

private theorem gather_extracting {entry : Entry}
    (he : entry ∈ ShiftImmediate.extracting.entries) {ops : List Operand}
    (ht : ops.map Operand.kind = ShiftImmediate.extracting.signature)
    (hf : (ShiftImmediate.extracting.encoding entry).fault ops = none) :
    gather ((ShiftImmediate.extracting.encoding entry).word ops) narrowing.runs =
      (elementAt ops 0).bits := by
  have hseparate := Catalogue.separate_of_family (mem_families extracting_mem) he
  have hfields : ∀ field ∈ ShiftImmediate.shiftFields .right .width 16,
      field ∈ (ShiftImmediate.extracting.encoding entry).fields :=
    fun _ h => List.mem_append_left _ h
  have hcode := gather_shiftFields hseparate ht hf hfields
    (List.mem_cons_of_mem _ List.mem_cons_self)
  simp only [Shift.code, ShiftAmount.value] at hcode
  show gather _ [⟨0, 3, 16⟩, ⟨3, 2, 16 + 3⟩, ⟨5, 2, 22⟩] = _
  omega

/-- All shifts by an immediate accept the same amounts and hold the same code, each at its place.
The narrowing instructions without an amount hold the code of the shift by the whole width. -/
theorem words_hold_code :
    (∀ g : ShiftGroup, ∀ name ∈ g.names, ∃ i ∈ Catalogue.instructions, i.name = name ∧
      ∀ r, g.Legal r → ∀ (size : ElementSize) (amount : UInt32),
        ∃ c : Call, c.instruction = i ∧ c.operands = g.operands r size amount ∧
          ∀ features : FeatureSet, features.includes .sve2 = true →
            ((∃ w, c.words features = [w]) ↔ size ∈ g.sizes ∧ g.Admits size amount.toNat) ∧
            ∀ w, c.words features = [w] →
              let n := gather w g.runs
              n = g.code size amount.toNat ∧ 2 ^ n.log2 = g.width size ∧
                g.amountOf n = amount.toNat) ∧
    ∀ name ∈ extractions, ∃ i ∈ Catalogue.instructions, i.name = name ∧
      ∀ zd zn : VectorRegister, zd.number ≤ 31 → zn.number ≤ 31 → ∀ size : ElementSize,
        ∃ c : Call, c.instruction = i ∧ c.operands = [.element size, .vector zd, .vector zn] ∧
          ∀ features : FeatureSet, features.includes .sve2 = true →
            ((∃ w, c.words features = [w]) ↔ size ∈ narrowing.sizes) ∧
            ∀ w, c.words features = [w] → gather w narrowing.runs = size.bits := by
  constructor
  · intro g name hname
    obtain ⟨f, hf, entry, he, hentry, hsignature, hrequirement, hchecks, hfields⟩ :=
      exists_entry g (mem_all g) name hname
    refine ⟨f.instruction entry, Catalogue.mem_of_family (mem_families hf) he, hentry, ?_⟩
    intro r hr size amount
    have htyped : (g.operands r size amount).map Operand.kind = f.signature := by
      rw [typed_operands, hsignature]
    refine ⟨⟨f.instruction entry, g.operands r size amount, htyped⟩, rfl, rfl, ?_⟩
    intro features hfeatures
    have hincludes := FeatureSet.includes_trans hfeatures hrequirement
    have hfault := fault_encoding entry hchecks hr size amount
    refine ⟨(Call.exists_word_iff_of_family (mem_families hf) he rfl hincludes).trans hfault, ?_⟩
    intro w hw
    obtain ⟨hnone, rfl⟩ := (Call.words_iff_of_family (mem_families hf) he rfl hincludes).mp hw
    obtain ⟨hs, hadmits⟩ := hfault.mp hnone
    have hcode := gather_encoding hf he hsignature hchecks hfields hnone hadmits
    simp only [hcode, true_and]
    exact log2_code hs hadmits
  · intro name hname
    obtain ⟨entry, he, hentry⟩ : ∃ entry ∈ ShiftImmediate.extracting.entries,
        entry.name = name := List.mem_map.mp hname
    have hf := mem_families extracting_mem
    refine ⟨_, Catalogue.mem_of_family hf he, hentry, ?_⟩
    intro zd zn hd hn size
    refine ⟨⟨_, [.element size, .vector zd, .vector zn], rfl⟩, rfl, rfl, ?_⟩
    intro features hfeatures
    have hfault := fault_extracting entry hd hn size
    refine ⟨(Call.exists_word_iff_of_family hf he rfl hfeatures).trans hfault, ?_⟩
    intro w hw
    obtain ⟨hnone, rfl⟩ := (Call.words_iff_of_family hf he rfl hfeatures).mp hw
    exact gather_extracting he rfl hnone

/-- The widening shift of 32-bit elements by 31. -/
theorem widening_word_holds_code :
    ∃ (c : Call) (w : Word), c.instruction.name = "Sshllt" ∧
      c.operands = [.element .double, .vector ⟨1⟩, .vector ⟨2⟩, .uint32 31] ∧
      c.words .sve2 = [w] ∧ gather w [⟨0, 3, 16⟩, ⟨3, 2, 19⟩, ⟨5, 1, 22⟩] = 32 + 31 := by
  obtain ⟨i, -, hname, hi⟩ := words_hold_code.1 widening "Sshllt" (by decide)
  have hlegal : widening.Legal ⟨⟨1⟩, ⟨0⟩, ⟨2⟩⟩ := ⟨by decide, by decide, trivial⟩
  obtain ⟨c, hc, hops, h⟩ := hi ⟨⟨1⟩, ⟨0⟩, ⟨2⟩⟩ hlegal .double 31
  obtain ⟨haccepted, hcode⟩ := h .sve2 (by decide)
  obtain ⟨w, hw⟩ := haccepted.mpr ⟨by decide, show 31 < 32 by decide⟩
  exact ⟨c, w, by rw [hc, hname], hops, hw, (hcode w hw).1⟩

end ShiftGroup

end ScalableVector
