import ScalableVector.Proofs.Footprint

/-!
# Domains of operands

Operands are raw bytes, and most bytes name no register, size or pattern. The checks of an encoding
confine every operand to the values that exist, also where the word does not hold it. The only
exceptions are the rotations of the two complex products, which are wrapped around a full turn.
-/

namespace ScalableVector

/-- The addressing mode has an encoding, and what it adds up exists. -/
def Address.InDomain (a : Address) : Prop :=
  a.mode = .scalarScalar ∧ a.base.code < 64 ∧ a.offset.code < 64 ∨
    a.mode = .scalarImmediate ∧ a.base.code < 64 ∧
      -8 ≤ a.immediate.toInt ∧ a.immediate.toInt ≤ 7

/-- The operand names something that exists, where sizes go up to the given one. -/
def Operand.InDomain (largest : ElementSize) : Operand → Prop
  | .element s => s.code ≤ largest.code
  | .vector z => z.number ≤ 31
  | .predicate _ p => p.number ≤ 15
  | .scalar v => v.number ≤ 31
  | .general r => r.code < 64
  | .rotation r => r ∈ [⟨0⟩, ⟨1⟩, ⟨2⟩, ⟨3⟩]
  | .pattern p => p.code ≤ 31
  | .address a => a.InDomain
  | _ => True

/-- The largest element size of an instruction: one of them takes 128-bit elements. -/
def Instruction.largestSize (i : Instruction) : ElementSize :=
  if i.name = "DupIndexed" then .quad else .double

/-- The operand with a rotation reduced to less than a full turn. -/
def Operand.wrapped : Operand → Operand
  | .rotation r => .rotation ⟨r.quarters &&& 3⟩
  | o => o

def Instruction.wrapsRotation (i : Instruction) : Bool := i.name ∈ ["Fcmla", "FcmlaIndexed"]

/-- No check looks at the slot, and fields hold its two lowest bits only. -/
def Encoding.wraps (e : Encoding) (slot : Nat) : Prop :=
  (∀ c ∈ e.checks, slot ∉ c.slots) ∧
    ∀ f ∈ e.fields, slot ∉ f.code.slots ∨
      f.code = .operand slot ∧ ∀ t ∈ f.terms, t.start = 0 ∧ t.kept = some 2

instance (e : Encoding) (slot : Nat) : Decidable (e.wraps slot) :=
  inferInstanceAs (Decidable (_ ∧ ∀ f ∈ _, _ ∨ _ ∧ ∀ t ∈ Field.terms f, _))

def OperandKind.isFree : OperandKind → Bool
  | .form | .int32 | .int64 | .uint32 | .float | .flag => true
  | _ => false

def Check.confines (largest : ElementSize) (kind : OperandKind) (slot : Nat) : Check → Bool
  | .size s allowed => s == slot && kind == .element && allowed.all (·.code ≤ largest.code)
  | .shift _ s _ | .longShift s _ =>
    s == slot && kind == .element && decide (ElementSize.double.code ≤ largest.code)
  | .convertible _ s t table =>
    (s == slot || t == slot) && kind == .element &&
      table.all fun entry => entry.1.all (·.code ≤ largest.code)
  | .register s | .wide s | .offset s | .elementRegister _ s => s == slot && kind.isRegister
  | .governing s => s == slot && kind.fileRange == some (0, 15)
  | .rotation s => s == slot && kind == .rotation
  | .bounds _ s _ hi => s == slot && kind == .pattern && decide (hi ≤ 31)
  | _ => false

/-- The checks confine the operand in a slot, or one that it has to be equal to. -/
def Encoding.confines (e : Encoding) (largest : ElementSize) (signature : List OperandKind)
    (slot : Nat) : Bool :=
  signature[slot]?.any fun kind =>
    kind.isFree || e.checks.any (·.confines largest kind slot) || e.checks.any fun
      | .aliased _ s _ t => t == slot && signature[s]? == some kind &&
          e.checks.any (·.confines largest kind s)
      | _ => false

section
variable {ops : List Operand} {slot : Nat} {largest : ElementSize}

private theorem inDomain_of_isFree {o : Operand} (h : o.kind.isFree = true) :
    o.InDomain largest := by
  cases o with
  | form | int32 | int64 | uint32 | float | flag => trivial
  | _ => cases h

private theorem inDomain_of_element (hk : (operandAt ops slot).kind = .element)
    (h : (elementAt ops slot).code ≤ largest.code) : (operandAt ops slot).InDomain largest := by
  rw [elementAt] at h
  cases ho : operandAt ops slot with
  | element s =>
    rw [ho] at h
    exact h
  | _ => simp [ho, Operand.kind] at hk

private theorem code_le_of_plain {s : ElementSize} (hs : s ∈ ElementSizes.plain)
    (h : ElementSize.double.code ≤ largest.code) : s.code ≤ largest.code := by
  have hle : ∀ t ∈ ElementSizes.plain, t.code ≤ ElementSize.double.code := by decide
  exact UInt8.le_trans (hle s hs) h

private theorem inDomain_of_register {o : Operand} (hr : o.kind.isRegister = true)
    (h : o.inFile = true) : o.InDomain largest := by
  cases o with
  | vector z | scalar z | predicate view z =>
    have hlt := UInt8.lt_iff_toNat_lt.mp (of_decide_eq_true h)
    exact UInt8.le_iff_toNat_le.mpr (Nat.le_of_lt_succ hlt)
  | general r =>
    have hlt : r.code < 64 := of_decide_eq_true h
    exact hlt
  | _ => cases hr

private theorem inDomain_of_governing (hk : (operandAt ops slot).kind.fileRange = some (0, 15))
    (h : valueAt ops slot ≤ 7) : (operandAt ops slot).InDomain largest := by
  rw [valueAt] at h
  cases ho : operandAt ops slot with
  | predicate view p =>
    rw [ho, Operand.value] at h
    exact UInt8.le_iff_toNat_le.mpr (show p.number.toNat ≤ 15 by omega)
  | _ => simp [ho, Operand.kind, OperandKind.fileRange] at hk

private theorem inDomain_of_rotation (hk : (operandAt ops slot).kind = .rotation)
    (h : rotationAt ops slot ∈ [⟨1⟩, ⟨3⟩]) : (operandAt ops slot).InDomain largest := by
  have hsub : ∀ r : Rotation, r ∈ [⟨1⟩, ⟨3⟩] → r ∈ [⟨0⟩, ⟨1⟩, ⟨2⟩, ⟨3⟩] := by simp
  rw [rotationAt] at h
  cases ho : operandAt ops slot with
  | rotation r =>
    rw [ho] at h
    exact hsub r h
  | _ => simp [ho, Operand.kind] at hk

private theorem inDomain_of_pattern (hk : (operandAt ops slot).kind = .pattern) {hi : Int}
    (hhi : hi ≤ 31) (h : valueAt ops slot ≤ hi) : (operandAt ops slot).InDomain largest := by
  rw [valueAt] at h
  cases ho : operandAt ops slot with
  | pattern p =>
    rw [ho, Operand.value] at h
    exact UInt8.le_iff_toNat_le.mpr (show p.code.toNat ≤ 31 by omega)
  | _ => simp [ho, Operand.kind] at hk

private theorem code_le_of_lookup {table : ConversionTable} {s t : ElementSize} {n : Nat}
    (h : table.lookup [s, t] = some n)
    (hall : ∀ entry ∈ table, ∀ size ∈ entry.1, size.code ≤ largest.code) :
    s.code ≤ largest.code ∧ t.code ≤ largest.code := by
  obtain ⟨before, after, rfl, -⟩ := List.lookup_eq_some_iff.mp h
  have hentry := hall ([s, t], n) (by simp)
  exact ⟨hentry s (by simp), hentry t (by simp)⟩

private theorem inDomain_of_check {c : Check} (hf : c.fault ops = none)
    (h : c.confines largest (operandAt ops slot).kind slot = true) :
    (operandAt ops slot).InDomain largest := by
  cases c with
  | size s allowed =>
    simp only [Check.confines, Bool.and_eq_true, beq_iff_eq, List.all_eq_true,
      decide_eq_true_eq] at h
    obtain ⟨⟨rfl, hk⟩, hall⟩ := h
    exact inDomain_of_element hk (hall _ (Shift.sizeFault_eq_none.mp hf))
  | shift direction s amount =>
    simp only [Check.confines, Bool.and_eq_true, beq_iff_eq, decide_eq_true_eq] at h
    obtain ⟨⟨rfl, hk⟩, hle⟩ := h
    exact inDomain_of_element hk (code_le_of_plain (Shift.fault_eq_none.mp hf).1 hle)
  | longShift s amount =>
    simp only [Check.confines, Bool.and_eq_true, beq_iff_eq, decide_eq_true_eq] at h
    obtain ⟨⟨rfl, hk⟩, hle⟩ := h
    have hwide : elementAt ops s ∈ ElementSizes.wide := (Shift.longFault_eq_none.mp hf).1
    exact inDomain_of_element hk (code_le_of_plain (List.mem_cons_of_mem _ hwide) hle)
  | convertible direction s t table =>
    simp only [Check.confines, Bool.and_eq_true, Bool.or_eq_true, beq_iff_eq, List.all_eq_true,
      decide_eq_true_eq] at h
    obtain ⟨⟨hs, hk⟩, hall⟩ := h
    rw [Check.fault] at hf
    split at hf
    · next n hn =>
      have hle := code_le_of_lookup hn hall
      rcases hs with rfl | rfl
      · exact inDomain_of_element hk hle.1
      · exact inDomain_of_element hk hle.2
    · cases hf
  | register s =>
    simp only [Check.confines, Bool.and_eq_true, beq_iff_eq] at h
    obtain ⟨rfl, hr⟩ := h
    exact inDomain_of_register hr (Check.inFile_of_registerFault hf)
  | wide s | elementRegister element s =>
    simp only [Check.confines, Bool.and_eq_true, beq_iff_eq] at h
    obtain ⟨rfl, hr⟩ := h
    have hreg := (Option.or_eq_none_iff.mp hf).1
    exact inDomain_of_register hr (Check.inFile_of_registerFault hreg)
  | offset s =>
    simp only [Check.confines, Bool.and_eq_true, beq_iff_eq] at h
    obtain ⟨rfl, hr⟩ := h
    have hreg := (Option.or_eq_none_iff.mp (Option.or_eq_none_iff.mp hf).1).1
    exact inDomain_of_register hr (Check.inFile_of_registerFault hreg)
  | governing s =>
    simp only [Check.confines, Bool.and_eq_true, beq_iff_eq] at h
    obtain ⟨rfl, hk⟩ := h
    exact inDomain_of_governing hk (Check.le_of_governing hf)
  | rotation s =>
    simp only [Check.confines, Bool.and_eq_true, beq_iff_eq] at h
    obtain ⟨rfl, hk⟩ := h
    exact inDomain_of_rotation hk (Check.mem_of_rotation hf)
  | bounds what s lo hi =>
    simp only [Check.confines, Bool.and_eq_true, beq_iff_eq, decide_eq_true_eq] at h
    obtain ⟨⟨rfl, hk⟩, hhi⟩ := h
    exact inDomain_of_pattern hk hhi (Shift.boundsFault_eq_none.mp hf).2
  | _ => cases h

theorem Encoding.inDomain_of_confines {e : Encoding} {signature : List OperandKind}
    (ht : ops.map Operand.kind = signature) (hf : e.fault ops = none)
    (h : e.confines largest signature slot = true) : (operandAt ops slot).InDomain largest := by
  rw [Encoding.fault_eq_none] at hf
  simp only [Encoding.confines, Option.any_eq_true] at h
  obtain ⟨kind, hk, h⟩ := h
  have hkind := kind_operandAt ht hk
  rw [← hkind] at h
  simp only [Bool.or_eq_true, List.any_eq_true] at h
  rcases h with (hfree | ⟨c, hc, h⟩) | ⟨c, hc, h⟩
  · exact inDomain_of_isFree hfree
  · exact inDomain_of_check (hf c hc) h
  · split at h
    · next first s second t =>
      simp only [Bool.and_eq_true, beq_iff_eq, List.any_eq_true] at h
      obtain ⟨⟨rfl, -⟩, c', hc', h⟩ := h
      have heq := Check.aliased_of_fault (hf _ hc)
      rw [← heq] at h ⊢
      exact inDomain_of_check (hf c' hc') h
    · cases h

end

namespace Catalogue

private def Confined (i : Instruction) (t : Template) : Prop :=
  ∀ slot < t.signature.length, t.encoding.confines i.largestSize t.signature slot = true ∨
    i.wrapsRotation = true ∧ t.signature[slot]? = some .rotation

private instance (i : Instruction) (t : Template) : Decidable (Confined i t) :=
  inferInstanceAs (Decidable (∀ slot < _, _))

private theorem confined : ∀ i ∈ instructions, ∀ t ∈ i.templates, Confined i t := by
  decide +kernel

private theorem offset_checked : ∀ i ∈ instructions, i.layout.isDirect = false →
    ∀ t ∈ i.templates, t.signature.getLast? = some .int32 →
      .bounds "offset" (t.signature.length - 1) (-8) 7 ∈ t.encoding.checks := by
  decide +kernel

private theorem rotation_wraps : ∀ i ∈ instructions, i.wrapsRotation = true →
    i.layout.isDirect = true ∧ i.layout.selector ≠ some 5 ∧
      (∀ s < i.signature.length, i.signature[s]? = some .rotation → s = 5) ∧
      ∀ e ∈ i.layout.encodings, e.wraps 5 := by
  decide +kernel

end Catalogue

namespace Call

variable {c : Call} {w : Word}

private theorem resolved_inDomain (hc : c.instruction ∈ Catalogue.instructions)
    (h : c.encode .all = .ok w) {o : Operand} (ho : o ∈ c.resolved.operands) :
    o.InDomain c.instruction.largestSize ∨
      c.instruction.wrapsRotation = true ∧ o.kind = .rotation := by
  obtain ⟨t, ht, -, hy⟩ := c.exists_template hc h
  obtain ⟨slot, hslot, rfl⟩ := List.mem_iff_getElem.mp ho
  have hat : operandAt c.resolved.operands slot = c.resolved.operands[slot] := by
    rw [operandAt, List.getD_eq_getElem?_getD, List.getElem?_eq_getElem hslot, Option.getD_some]
  have hlt : slot < t.signature.length := by rwa [← hy.typed, List.length_map]
  rcases Catalogue.confined _ hc t ht slot hlt with hconf | ⟨hwraps, hk⟩
  · left
    rw [← hat]
    exact Encoding.inDomain_of_confines hy.typed hy.accepted hconf
  · right
    refine ⟨hwraps, ?_⟩
    rw [← hat]
    exact kind_operandAt hy.typed hk

private theorem offset_bounds (hc : c.instruction ∈ Catalogue.instructions)
    (hd : c.instruction.layout.isDirect = false) (h : c.encode .all = .ok w) {n : Int32}
    (hn : c.resolved.operands.getLast? = some (.int32 n)) : -8 ≤ n.toInt ∧ n.toInt ≤ 7 := by
  obtain ⟨t, ht, -, hy⟩ := c.exists_template hc h
  have hsig : t.signature.getLast? = some .int32 := by
    rw [← hy.typed, List.getLast?_map, hn]
    rfl
  have hcheck := Catalogue.offset_checked _ hc hd t ht hsig
  have hbounds := Shift.boundsFault_eq_none.mp (Encoding.fault_eq_none.mp hy.accepted _ hcheck)
  have hvalue : valueAt c.resolved.operands (t.signature.length - 1) = n.toInt := by
    rw [List.getLast?_eq_getElem?] at hn
    rw [valueAt, operandAt, List.getD_eq_getElem?_getD, ← hy.typed, List.length_map, hn]
    rfl
  rwa [hvalue] at hbounds

private theorem address_inDomain (hc : c.instruction ∈ Catalogue.instructions)
    (h : c.encode .all = .ok w) {a : Address}
    (ha : c.operands.getLast? = some (.address a)) : a.InDomain := by
  have hsig : c.instruction.signature.getLast? = some .address := by
    rw [← c.typed, List.getLast?_map, ha]
    rfl
  have hregister {r : GeneralRegister} (hr : .general r ∈ c.resolved.operands) : r.code < 64 := by
    rcases resolved_inDomain hc h hr with hin | ⟨-, hk⟩
    · exact hin
    · cases hk
  have hlast := Catalogue.addressLast _ hc
  have hencode := c.layout_encode_of_encode h
  cases hl : c.instruction.layout with
  | fixed e =>
    rw [hl] at hlast
    exact absurd hsig hlast
  | bySize slot size own other =>
    rw [hl] at hlast
    exact absurd hsig hlast
  | byAddress slot register immediate =>
    rw [hl] at hlast hencode
    obtain ⟨a', hat, -, ha'⟩ := resolved_of_address hlast.1 hlast.2
    obtain rfl : a = a' := by simpa [ha] using ha'
    simp only [Layout.encode, hat] at hencode
    split at hencode
    · next hm =>
      have hops : c.resolved.operands =
          c.operands.dropLast ++ [.general a.base, .general a.offset] := by
        simp [resolved, ha, hm]
      exact .inl ⟨hm, hregister (by simp [hops]), hregister (by simp [hops])⟩
    · next hm =>
      have hops : c.resolved.operands =
          c.operands.dropLast ++ [.general a.base, .int32 a.immediate] := by
        simp [resolved, ha, hm]
      split at hencode
      · next hi =>
        have hbounds := offset_bounds hc (by rw [hl]; rfl) h (n := a.immediate) (by simp [hops])
        exact .inr ⟨hi, hregister (by simp [hops]), hbounds⟩
      · split at hencode <;> cases hencode

private theorem operand_inDomain (hc : c.instruction ∈ Catalogue.instructions)
    (h : c.encode .all = .ok w) {o : Operand} (ho : o ∈ c.operands) :
    o.InDomain c.instruction.largestSize ∨
      c.instruction.wrapsRotation = true ∧ o.kind = .rotation := by
  by_cases hlast : ∃ a, c.operands.getLast? = some (.address a)
  · obtain ⟨a, ha⟩ := hlast
    obtain ⟨front, hfront⟩ := List.getLast?_eq_some_iff.mp ha
    rw [hfront] at ho
    rcases List.mem_append.mp ho with hmem | hmem
    · apply resolved_inDomain hc h
      simp only [resolved, ha]
      split <;> simp [hfront, hmem]
    · rw [List.mem_singleton.mp hmem]
      exact .inl (address_inDomain hc h ha)
  · apply resolved_inDomain hc h
    rw [resolved_of_ne]
    · exact ho
    · intro hsig
      rw [← c.typed, List.getLast?_map, Option.map_eq_some_iff] at hsig
      obtain ⟨o', ho', hk⟩ := hsig
      cases o' with
      | address a => exact hlast ⟨a, ho'⟩
      | _ => cases hk

private theorem wrapped_of_inDomain {o : Operand} {largest : ElementSize}
    (h : o.InDomain largest) : o.wrapped = o := by
  cases o with
  | rotation r =>
    simp only [Operand.InDomain, List.mem_cons, List.not_mem_nil, or_false] at h
    rcases h with rfl | rfl | rfl | rfl <;> rfl
  | _ => rfl

private theorem operandAt_wrapped (ops : List Operand) (slot : Nat) :
    operandAt (ops.map Operand.wrapped) slot = (operandAt ops slot).wrapped := by
  simp only [operandAt, List.getD_eq_getElem?_getD, List.getElem?_map]
  cases ops[slot]? <;> rfl

private theorem slice_value_wrapped (o : Operand) :
    (BitVec.ofInt 32 o.wrapped.value).extractLsb' 0 2 =
      (BitVec.ofInt 32 o.value).extractLsb' 0 2 := by
  cases o with
  | rotation r =>
    have hmod : (r.quarters &&& 3).toNat = r.quarters.toNat % 4 := by
      rw [UInt8.toNat_and]
      exact Nat.and_two_pow_sub_one_eq_mod r.quarters.toNat 2
    apply BitVec.eq_of_toNat_eq
    have hlt := r.quarters.toNat_lt
    simp only [Operand.wrapped, Operand.value, BitVec.ofInt_natCast, BitVec.extractLsb'_toNat,
      BitVec.toNat_ofNat, hmod, Nat.shiftRight_zero]
    omega
  | _ => rfl

private theorem agreeExcept_wrapped {ops : List Operand} {signature : List OperandKind} {slot : Nat}
    (ht : ops.map Operand.kind = signature)
    (h : ∀ s < signature.length, signature[s]? = some .rotation → s = slot) :
    AgreeExcept slot (ops.map Operand.wrapped) ops := by
  intro s hs
  simp only [operandAt, List.getD_eq_getElem?_getD, List.getElem?_map]
  cases ho : ops[s]? with
  | none => rfl
  | some o =>
    have hk : signature[s]? = some o.kind := by rw [← ht, List.getElem?_map, ho]; rfl
    cases o with
    | rotation r => exact absurd (h s (List.getElem?_eq_some_iff.mp hk).1 hk) hs
    | _ => rfl

private theorem encode_wrapped {e : Encoding} {ops : List Operand} {slot : Nat}
    (hw : e.wraps slot) (h : AgreeExcept slot (ops.map Operand.wrapped) ops) :
    e.encode (ops.map Operand.wrapped) = e.encode ops := by
  have hword : e.word (ops.map Operand.wrapped) = e.word ops := by
    apply Encoding.word_congr
    intro f hf
    rcases hw.2 f hf with hslot | ⟨hcode, hterms⟩
    · exact Field.contribution_congr (h.operandAt_of_notMem hslot)
    · rw [Field.contribution, Field.contribution, hcode]
      apply List.foldr_ext
      rintro ⟨start, kept, lsb⟩ ht v
      obtain ⟨rfl, rfl⟩ : start = 0 ∧ kept = some 2 := hterms _ ht
      simp only [Term.place_eq, Term.piece, Option.getD_some, Piece.place, Code.value, valueAt,
        operandAt_wrapped, slice_value_wrapped]
  rw [Encoding.encode, Encoding.encode, h.fault_eq hw.1, hword]

/-- A call is not told from the one with its rotations wrapped. -/
private theorem encode_of_wrapped (hc : c.instruction ∈ Catalogue.instructions)
    (h : c.encode .all = .ok w) :
    c.instruction.layout.encode (c.operands.map Operand.wrapped) = .ok w := by
  have hencode := c.layout_encode_of_encode h
  by_cases hwraps : c.instruction.wrapsRotation = true
  · obtain ⟨hd, hsel, hslot, hall⟩ := Catalogue.rotation_wraps _ hc hwraps
    have hagree := agreeExcept_wrapped c.typed hslot
    obtain ⟨e, he, ha, hb⟩ := hagree.chosen hd hsel
    rw [Layout.encode_of_chosen hb] at hencode
    rw [Layout.encode_of_chosen ha, encode_wrapped (hall e he) hagree, hencode]
  · have hsame : c.operands.map Operand.wrapped = c.operands := by
      refine (List.map_congr_left ?_).trans (List.map_id c.operands)
      intro o ho
      rcases operand_inDomain hc h ho with hin | ⟨hw, -⟩
      · exact wrapped_of_inDomain hin
      · exact absurd hw hwraps
    rw [hsame, hencode]

/-- Every operand of an accepted call names something that exists. Only the complex products take a
rotation of a full turn or more, and they take it for the rotation that it amounts to. -/
theorem operands_inDomain {features : FeatureSet} (hc : c.instruction ∈ Catalogue.instructions)
    (hw : c.words features = [w]) :
    (∀ o ∈ c.operands, o.InDomain c.instruction.largestSize ∨
      c.instruction.wrapsRotation = true ∧ o.kind = .rotation) ∧
    ∀ d : Call, d.instruction = c.instruction → d.operands = c.operands.map Operand.wrapped →
      d.words features = [w] := by
  rw [words_eq_of_mem hc] at hw
  split at hw
  · next hincludes =>
    have hencode := c.accepted_iff.mp hw
    refine ⟨fun o ho => operand_inDomain hc hencode ho, ?_⟩
    intro d hi hd
    have hdc : d.instruction ∈ Catalogue.instructions := by rwa [hi]
    rw [words_eq_of_mem hdc, hi, if_pos hincludes]
    apply (accepted_iff_layout hdc).mpr
    rw [hi, hd]
    exact encode_of_wrapped hc hencode
  · cases hw

private def complexProduct (r : Rotation) : Call :=
  ⟨Predicated.complexProduct.instruction ⟨"Fcmla", "fcmla", 0x64000000⟩,
    [.element .half, .vector ⟨0⟩, .predicate .merging ⟨0⟩, .vector ⟨1⟩, .vector ⟨2⟩, .rotation r],
    rfl⟩

private theorem complexProduct_mem (r : Rotation) :
    (complexProduct r).instruction ∈ Catalogue.instructions := by
  apply Catalogue.mem_of_family
  · simp [Catalogue.families, Predicated.families]
  · exact List.mem_cons_self

theorem complexProduct_operands_inDomain :
    (complexProduct ⟨5⟩).words .empty = [0x64422020] ∧
      (∀ o ∈ (complexProduct ⟨5⟩).operands, o.InDomain .double ∨ o.kind = .rotation) ∧
      (complexProduct ⟨1⟩).words .empty = [0x64422020] := by
  have hw : (complexProduct ⟨5⟩).words .empty = [0x64422020] := by decide +kernel
  obtain ⟨hin, hwrapped⟩ := operands_inDomain (complexProduct_mem ⟨5⟩) hw
  refine ⟨hw, ?_, hwrapped (complexProduct ⟨1⟩) rfl rfl⟩
  intro o ho
  rcases hin o ho with h | ⟨-, h⟩
  · exact .inl h
  · exact .inr h

/-- A rotation by a full turn is not refused, although there is none. -/
theorem complexProduct_fullTurn :
    (complexProduct ⟨4⟩).words .empty = [0x64420020] ∧
      .rotation ⟨4⟩ ∈ (complexProduct ⟨4⟩).operands ∧
      ¬(Operand.rotation ⟨4⟩).InDomain .double := by
  refine ⟨by decide +kernel, by simp [complexProduct], ?_⟩
  simp [Operand.InDomain]

end Call

end ScalableVector
