import ScalableVector.Proofs.Footprint

/-!
# Bounded values

Numbers, patterns and floating-point values are bounded, and so is the immediate of an address. The
frame of an operand is what it is without such a value. A check looks at the frames only, or it
compares registers, or it bounds a value. So if a call is refused that differs from an accepted one
in bounded values only, one of these values is out of range.
-/

namespace ScalableVector

/-- The operand without its bounded value. -/
def Operand.frame : Operand → Operand
  | .pattern _ => .pattern ⟨0⟩
  | .address a => .address { a with immediate := 0 }
  | .int32 _ => .int32 0
  | .int64 _ => .int64 0
  | .uint32 _ => .uint32 0
  | .float _ => .float ⟨0⟩
  | o => o

theorem Operand.frame_of_isRegister {o : Operand} (h : o.kind.isRegister = true) : o.frame = o := by
  cases o with
  | pattern | address | int32 | int64 | uint32 | float => cases h
  | _ => rfl

section
variable (ops : List Operand) (slot : Nat)

theorem operandAt_map_frame :
    operandAt (ops.map Operand.frame) slot = (operandAt ops slot).frame := by
  simp only [operandAt, List.getD_eq_getElem?_getD, List.getElem?_map]
  exact Option.getD_map Operand.frame (.flag false) ops[slot]?

private theorem elementAt_map_frame :
    elementAt (ops.map Operand.frame) slot = elementAt ops slot := by
  rw [elementAt, elementAt, operandAt_map_frame]
  cases operandAt ops slot <;> rfl

private theorem generalAt_map_frame :
    generalAt (ops.map Operand.frame) slot = generalAt ops slot := by
  rw [generalAt, generalAt, operandAt_map_frame]
  cases operandAt ops slot <;> rfl

private theorem vectorAt_map_frame :
    vectorAt (ops.map Operand.frame) slot = vectorAt ops slot := by
  rw [vectorAt, vectorAt, operandAt_map_frame]
  cases operandAt ops slot <;> rfl

private theorem rotationAt_map_frame :
    rotationAt (ops.map Operand.frame) slot = rotationAt ops slot := by
  rw [rotationAt, rotationAt, operandAt_map_frame]
  cases operandAt ops slot <;> rfl

private theorem registerFault_map_frame :
    Check.registerFault (ops.map Operand.frame) slot = Check.registerFault ops slot := by
  rw [Check.registerFault, Check.registerFault, operandAt_map_frame]
  cases operandAt ops slot <;> rfl

private theorem flag_map_frame :
    operandAt (ops.map Operand.frame) slot = .flag true ↔ operandAt ops slot = .flag true := by
  rw [operandAt_map_frame]
  cases operandAt ops slot <;> simp [Operand.frame]

end

private theorem elementAt_eq_of_frame {a b : List Operand} {slot : Nat}
    (h : (operandAt a slot).frame = (operandAt b slot).frame) :
    elementAt a slot = elementAt b slot := by
  rw [← elementAt_map_frame a, ← elementAt_map_frame b, elementAt, elementAt, operandAt_map_frame,
    operandAt_map_frame, h]

namespace Check

def isBound : Check → Bool
  | bounds .. | multiple .. | shift .. | longShift .. | float .. | lane .. => true
  | _ => false

/-- The slots of the registers that a check compares. -/
def compared : Check → List Nat
  | governing slot => [slot]
  | aliased _ a _ b => [a, b]
  | _ => []

theorem fault_map_frame {k : Check} (hb : k.isBound = false) (hk : k.compared = [])
    (ops : List Operand) : k.fault (ops.map Operand.frame) = k.fault ops := by
  cases k with
  | bounds | multiple | shift | longShift | float | lane => cases hb
  | governing | aliased => cases hk
  | sequential slots =>
    have hslots : slots.map (vectorAt (ops.map Operand.frame)) = slots.map (vectorAt ops) :=
      List.map_congr_left fun s _ => vectorAt_map_frame ops s
    simp only [fault, hslots]
  | _ =>
    simp only [fault, wideFault, elementAt_map_frame, generalAt_map_frame, rotationAt_map_frame,
      registerFault_map_frame, flag_map_frame]

theorem rejectionClass_of_boundsFault {what : String} {value lo hi : Int} {cause : Cause}
    (h : Shift.boundsFault what value lo hi = some cause) :
    cause.rejectionClass = .outOfRange := by
  obtain ⟨-, ⟨⟩⟩ := Option.ite_none_left_eq_some.mp h
  rfl

theorem rejectionClass_of_isBound {k : Check} {ops : List Operand} {cause : Cause}
    (hb : k.isBound = true) (h : k.fault ops = some cause) :
    cause.rejectionClass = .outOfRange ∨ cause.rejectionClass = .invalidArgument ∧
      ∀ b, (∀ s ∈ k.slots, elementAt b s = elementAt ops s) → k.fault b = some cause := by
  cases k with
  | bounds | lane => exact .inl (rejectionClass_of_boundsFault h)
  | multiple =>
    obtain ⟨-, ⟨⟩⟩ := Option.ite_none_left_eq_some.mp h
    exact .inl rfl
  | shift | longShift =>
    rcases Option.or_eq_some_iff.mp h with hsize | ⟨-, hamount⟩
    · have hcause := hsize
      obtain ⟨-, ⟨⟩⟩ := Option.ite_none_left_eq_some.mp hcause
      refine .inr ⟨rfl, fun b hsame => ?_⟩
      rw [← hsame _ List.mem_cons_self] at hsize ⊢
      exact Option.or_eq_some_iff.mpr (.inl hsize)
    · exact .inl (rejectionClass_of_boundsFault hamount)
  | float =>
    rw [fault] at h
    split at h <;> cases h
    exact .inl rfl
  | _ => cases hb

theorem rejectionClass_of_not_isBound {k : Check} {ops : List Operand} {cause : Cause}
    (hb : k.isBound = false) (h : k.fault ops = some cause) :
    cause.rejectionClass = .invalidArgument := by
  have hregister {slot : Nat} (h : registerFault ops slot = some cause) :
      cause.rejectionClass = .invalidArgument := by
    obtain ⟨-, ⟨⟩⟩ := Option.ite_none_left_eq_some.mp h
    rfl
  have hwide {slot : Nat} (h : wideFault ops slot = some cause) :
      cause.rejectionClass = .invalidArgument := by
    rcases Option.or_eq_some_iff.mp h with h | ⟨-, h⟩
    · exact hregister h
    · obtain ⟨-, ⟨⟩⟩ := Option.ite_none_left_eq_some.mp h
      rfl
  cases k with
  | bounds | multiple | shift | longShift | float | lane => cases hb
  | register => exact hregister h
  | wide => exact hwide h
  | offset =>
    rcases Option.or_eq_some_iff.mp h with h | ⟨-, h⟩
    · exact hwide h
    · obtain ⟨-, ⟨⟩⟩ := Option.ite_none_right_eq_some.mp h
      rfl
  | elementRegister =>
    rcases Option.or_eq_some_iff.mp h with h | ⟨-, h⟩
    · exact hregister h
    · obtain ⟨-, ⟨⟩⟩ := Option.ite_none_left_eq_some.mp h
      rfl
  | unshiftedByte =>
    obtain ⟨-, ⟨⟩⟩ := Option.ite_none_right_eq_some.mp h
    rfl
  | convertible =>
    rw [fault] at h
    split at h <;> cases h
    rfl
  | _ =>
    obtain ⟨-, ⟨⟩⟩ := Option.ite_none_left_eq_some.mp h
    rfl

/-- Where the frames and the registers that are compared are the same, and one operand list passes,
the other one can only have a value out of range. -/
theorem rejectionClass_of_frame {k : Check} {a b : List Operand} {cause : Cause}
    (hframe : ∀ s ∈ k.slots, (operandAt a s).frame = (operandAt b s).frame)
    (hsame : ∀ s ∈ k.compared, operandAt a s = operandAt b s) (ha : k.fault a = some cause)
    (hb : k.fault b = none) : cause.rejectionClass = .outOfRange := by
  have hmap : ∀ s ∈ k.slots,
      operandAt (a.map Operand.frame) s = operandAt (b.map Operand.frame) s := by
    intro s hs
    rw [operandAt_map_frame, operandAt_map_frame, hframe s hs]
  have hclash : k.fault a ≠ k.fault b := by
    rw [ha, hb]
    exact Option.some_ne_none cause
  cases hbound : k.isBound with
  | true =>
    rcases rejectionClass_of_isBound hbound ha with hclass | ⟨-, hsize⟩
    · exact hclass
    · -- the size is part of the frame, so that it would be refused in both lists
      have hboth := hsize b fun s hs => (elementAt_eq_of_frame (hframe s hs)).symm
      exact absurd (ha.trans hboth.symm) hclash
  | false =>
    by_cases hk : k.compared = []
    · rw [← fault_map_frame hbound hk, ← fault_map_frame hbound hk b, fault_congr hmap] at hclash
      exact absurd rfl hclash
    · have hslots : k.slots = k.compared := by
        cases k with
        | governing | aliased => rfl
        | _ => exact absurd rfl hk
      exact absurd (fault_congr (hslots ▸ hsame)) hclash

end Check

namespace Encoding

theorem encode_eq_error {e : Encoding} {ops : List Operand} {cause : Cause} :
    e.encode ops = .error cause ↔ e.fault ops = some cause := by
  rw [encode]
  cases e.fault ops <;> simp

def ComparesRegisters (e : Encoding) (signature : List OperandKind) : Prop :=
  ∀ k ∈ e.checks, ∀ s ∈ k.compared, ∃ kind ∈ signature[s]?, kind.isRegister = true

instance (e : Encoding) (signature : List OperandKind) :
    Decidable (e.ComparesRegisters signature) :=
  inferInstanceAs (Decidable (∀ k ∈ e.checks, ∀ s ∈ k.compared, ∃ kind ∈ signature[s]?, _))

theorem rejectionClass_of_frame {e : Encoding} {signature : List OperandKind}
    (he : e.ComparesRegisters signature) {a b : List Operand} {cause : Cause}
    (hta : a.map Operand.kind = signature) (htb : b.map Operand.kind = signature)
    (hframe : ∀ s, (operandAt a s).frame = (operandAt b s).frame) (ha : e.fault a = some cause)
    (hb : e.fault b = none) : cause.rejectionClass = .outOfRange := by
  obtain ⟨k, hk, hfault⟩ := List.exists_of_findSome?_eq_some ha
  refine Check.rejectionClass_of_frame (fun s _ => hframe s) ?_ hfault (fault_eq_none.mp hb k hk)
  intro s hs
  obtain ⟨kind, hkind, hregister⟩ := he k hk s hs
  have hra := kind_operandAt hta hkind
  have hrb := kind_operandAt htb hkind
  have hs := hframe s
  rwa [Operand.frame_of_isRegister (hra ▸ hregister), Operand.frame_of_isRegister (hrb ▸ hregister)]
    at hs

end Encoding

namespace Catalogue

/-- The encodings of the catalogue: most instructions have one, the indexed complex product has two,
and the loads and stores that take an address have one for each kind of offset. -/
theorem layout_cases {i : Instruction} (hi : i ∈ instructions) :
    (∃ e, i.layout = .fixed e) ∨ i = IndexedProduct.instruction ∨
      ∃ a ∈ Transfer.accesses, i = a.withAddress := by
  rcases List.mem_append.mp hi with hi | hi
  · obtain ⟨f, -, hi⟩ := List.mem_flatMap.mp hi
    obtain ⟨entry, -, rfl⟩ := List.mem_map.mp hi
    exact .inl ⟨_, rfl⟩
  rcases List.mem_cons.mp hi with rfl | hi
  · exact .inr (.inl rfl)
  obtain ⟨a, ha, hi⟩ := List.mem_flatMap.mp hi
  simp only [Transfer.Access.instructions, List.mem_cons, List.not_mem_nil, or_false] at hi
  rcases hi with rfl | rfl | rfl
  · exact .inl ⟨_, rfl⟩
  · exact .inl ⟨_, rfl⟩
  · exact .inr (.inr ⟨a, ha, rfl⟩)

theorem comparesRegisters :
    ∀ i ∈ instructions, ∀ e ∈ i.layout.encodings, e.ComparesRegisters i.signature := by
  decide +kernel

end Catalogue

namespace Transfer.Access

theorem mem_instructions {a : Access} (ha : a ∈ accesses) {i : Instruction}
    (hi : i ∈ a.instructions) : i ∈ Catalogue.instructions :=
  List.mem_append_right _ (List.mem_cons_of_mem _ (List.mem_flatMap.mpr ⟨a, ha, hi⟩))

theorem operands_withAddress {a : Access} {c : Call} (hc : c.instruction = a.withAddress) :
    ∃ o₀ o₁ o₂ x, c.operands = [o₀, o₁, o₂, .address x] ∧
      [o₀, o₁, o₂].map Operand.kind = [.element, .vector, a.predicate] := by
  have htyped := c.typed
  simp only [hc, withAddress, List.map_eq_cons_iff, List.map_eq_nil_iff] at htyped
  obtain ⟨o₀, _, hops, h₀, o₁, _, rfl, h₁, o₂, _, rfl, h₂, o₃, _, rfl, h₃, rfl⟩ := htyped
  cases o₃ with
  | address x => exact ⟨o₀, o₁, o₂, x, hops, by simp [h₀, h₁, h₂]⟩
  | _ => cases h₃

theorem encode_withAddress (a : Access) (o₀ o₁ o₂ : Operand) (x : Address) :
    a.withAddress.layout.encode [o₀, o₁, o₂, .address x] =
      if x.mode = .scalarScalar then
        a.registerEncoding.encode [o₀, o₁, o₂, .general x.base, .general x.offset]
      else if x.mode = .scalarImmediate then
        a.immediateEncoding.encode [o₀, o₁, o₂, .general x.base, .int32 x.immediate]
      else if x.mode ∈ [.scalarVector, .vectorImmediate] then .error (.unsupportedMode x.mode)
      else .error (.invalidMode x.mode) := rfl

end Transfer.Access

namespace Call

/-- An operand of a call without its bounded value. The second source of the indexed complex product
counts as bounded, if there is such a register. -/
def frameAt (c : Call) (slot : Nat) : Operand :=
  if c.instruction.name = IndexedProduct.instruction.name ∧ slot = 3 ∧
    (vectorAt c.operands slot).number ≤ 31 then .vector ⟨0⟩
  else (operandAt c.operands slot).frame

/-- The calls are the same but for bounded values. -/
structure SameFrame (c d : Call) : Prop where
  instruction : d.instruction = c.instruction
  frame : ∀ slot, c.frameAt slot = d.frameAt slot

variable {c d : Call}

theorem error_iff_layout (hc : c.instruction ∈ Catalogue.instructions) {r : Rejection} :
    c.error .all = some r ↔ r.mnemonic = c.instruction.mnemonic ∧
      c.instruction.layout.encode c.operands = .error r.cause := by
  have hall := Catalogue.all_includes_requirement hc
  have hencode : c.encode .all = (c.instruction.layout.encode c.operands).mapError
      (Rejection.mk c.instruction.mnemonic) := by
    rw [Call.encode, Instruction.encode, Instruction.word, if_pos hall]
  cases hl : c.instruction.layout.encode c.operands with
  | ok w =>
    rw [hl] at hencode
    simp [(solo_of_ok hencode).2]
  | error cause =>
    rw [hl] at hencode
    rw [(solo_of_error hencode).2]
    constructor
    · rintro ⟨⟩
      exact ⟨rfl, rfl⟩
    · rintro ⟨hmnemonic, ⟨⟩⟩
      rw [← hmnemonic]

private theorem frameAt_of_ne (h : c.instruction.name ≠ IndexedProduct.instruction.name)
    (slot : Nat) : c.frameAt slot = (operandAt c.operands slot).frame :=
  if_neg fun hp => h hp.1

private theorem frameAt_of_ne_three {slot : Nat} (h : slot ≠ 3) :
    c.frameAt slot = (operandAt c.operands slot).frame :=
  if_neg fun hp => h hp.2.1

private theorem name_ne (hc : c.instruction ∈ Catalogue.instructions)
    (h : c.instruction ≠ IndexedProduct.instruction) :
    c.instruction.name ≠ IndexedProduct.instruction.name := by
  intro hname
  exact h (Catalogue.eq_of_name hc (List.mem_append_right _ List.mem_cons_self) hname)

theorem operandAt_source (hi : c.instruction = IndexedProduct.instruction) :
    operandAt c.operands 3 = .vector (vectorAt c.operands 3) := by
  have hkind : (operandAt c.operands 3).kind = .vector := kind_operandAt c.typed (by rw [hi]; rfl)
  rw [vectorAt]
  cases ho : operandAt c.operands 3 with
  | vector z => rfl
  | _ =>
    rw [ho] at hkind
    cases hkind

theorem source_le_of_registerFault (hi : c.instruction = IndexedProduct.instruction)
    (h : Check.registerFault c.operands 3 = none) : (vectorAt c.operands 3).number ≤ 31 := by
  have hfile := Check.inFile_of_registerFault h
  rw [operandAt_source hi] at hfile
  have hlt := UInt8.lt_iff_toNat_lt.mp (of_decide_eq_true hfile)
  exact UInt8.le_iff_toNat_le.mpr (Nat.le_of_lt_succ hlt)

private theorem SameFrame.registerFault_source (hi : c.instruction = IndexedProduct.instruction)
    (h : c.SameFrame d) (hd : Check.registerFault d.operands 3 = none) :
    Check.registerFault c.operands 3 = none := by
  have hdi := h.instruction.trans hi
  have hzero : d.frameAt 3 = .vector ⟨0⟩ :=
    if_pos ⟨congrArg Instruction.name hdi, rfl, source_le_of_registerFault hdi hd⟩
  have hframe := h.frame 3
  rw [hzero, frameAt] at hframe
  split at hframe
  · next hp => exact Check.registerFault_of_vector (operandAt_source hi) hp.2.2
  · rw [operandAt_source hi] at hframe
    have hzero : vectorAt c.operands 3 = ⟨0⟩ := Operand.vector.inj hframe
    exact Check.registerFault_of_vector (operandAt_source hi) (by rw [hzero]; decide)

private theorem indexedProduct_rejectionClass {lastIndex lastSource : Int} {cause : Cause}
    (hi : c.instruction = IndexedProduct.instruction) (h : c.SameFrame d)
    (hc : (IndexedProduct.checks lastIndex lastSource).findSome? (·.fault c.operands) = some cause)
    (hd : ∀ k ∈ IndexedProduct.checks lastIndex lastSource, k.fault d.operands = none) :
    cause.rejectionClass = .outOfRange := by
  obtain ⟨k, hk, hfault⟩ := List.exists_of_findSome?_eq_some hc
  have hcompared : ∀ k ∈ IndexedProduct.checks lastIndex lastSource, k.compared = [] := by
    simp [IndexedProduct.checks, Check.compared]
  by_cases hthree : 3 ∈ k.slots
  · have hsource : Check.registerFault c.operands 3 = none :=
      h.registerFault_source hi (hd (.register 3) (by simp [IndexedProduct.checks]))
    simp only [IndexedProduct.checks, List.mem_cons, List.not_mem_nil, or_false] at hk
    rcases hk with rfl | rfl | rfl | rfl | rfl | rfl
    · simp [Check.slots] at hthree
    · simp [Check.slots] at hthree
    · simp [Check.slots] at hthree
    · rw [Check.fault, hsource] at hfault
      cases hfault
    · exact Check.rejectionClass_of_boundsFault hfault
    · exact Check.rejectionClass_of_boundsFault hfault
  · refine Check.rejectionClass_of_frame ?_ (by simp [hcompared k hk]) hfault (hd k hk)
    intro s hs
    have hne : s ≠ 3 := by
      rintro rfl
      exact hthree hs
    rw [← frameAt_of_ne_three hne, ← frameAt_of_ne_three hne, h.frame]

private theorem address_rejectionClass {a : Transfer.Access} (ha : a ∈ Transfer.accesses)
    {cause : Cause} {w : Word} (hi : c.instruction = a.withAddress)
    (hj : d.instruction = a.withAddress)
    (hframe : ∀ s, (operandAt c.operands s).frame = (operandAt d.operands s).frame)
    (hc : a.withAddress.layout.encode c.operands = .error cause)
    (hd : a.withAddress.layout.encode d.operands = .ok w) :
    cause.rejectionClass = .outOfRange := by
  obtain ⟨o₀, o₁, o₂, x, hops, hkinds⟩ := Transfer.Access.operands_withAddress hi
  obtain ⟨p₀, p₁, p₂, y, hops', hkinds'⟩ := Transfer.Access.operands_withAddress hj
  rw [hops, hops'] at hframe
  have haddress : (Operand.address x).frame = (Operand.address y).frame := hframe 3
  simp only [Operand.frame, Operand.address.injEq, Address.mk.injEq] at haddress
  obtain ⟨hmode, hbase, hoffset, -⟩ := haddress
  have hapart (o p : Operand) (h : o.frame = p.frame) (s : Nat) :
      (operandAt [o₀, o₁, o₂, .general x.base, o] s).frame =
        (operandAt [p₀, p₁, p₂, .general y.base, p] s).frame := by
    match s with
    | 0 => exact hframe 0
    | 1 => exact hframe 1
    | 2 => exact hframe 2
    | 3 => exact congrArg Operand.general hbase
    | 4 => exact h
    | _ + 5 => rfl
  rw [hops, Transfer.Access.encode_withAddress] at hc
  rw [hops', Transfer.Access.encode_withAddress, ← hmode] at hd
  have htyped {p q r s t : Operand} {kind : OperandKind} {signature : List OperandKind}
      (h : [p, q, r].map Operand.kind = signature) (hs : s.kind = .general) (ht : t.kind = kind) :
      [p, q, r, s, t].map Operand.kind = signature ++ [.general, kind] := by
    rw [← h, ← hs, ← ht]
    rfl
  -- each kind of offset has an instruction of its own with the same encoding
  have hregister := Catalogue.comparesRegisters a.withRegister
    (Transfer.Access.mem_instructions ha (by simp [Transfer.Access.instructions]))
    a.registerEncoding (List.mem_singleton_self _)
  have himmediate := Catalogue.comparesRegisters a.withImmediate
    (Transfer.Access.mem_instructions ha (by simp [Transfer.Access.instructions]))
    a.immediateEncoding (List.mem_singleton_self _)
  by_cases hscalar : x.mode = .scalarScalar
  · rw [if_pos hscalar] at hc hd
    exact Encoding.rejectionClass_of_frame hregister (htyped hkinds rfl rfl)
      (htyped hkinds' rfl rfl)
      (hapart (.general x.offset) (.general y.offset) (congrArg Operand.general hoffset))
      (Encoding.encode_eq_error.mp hc) (Encoding.encode_eq_ok.mp hd).1
  rw [if_neg hscalar] at hc hd
  by_cases himm : x.mode = .scalarImmediate
  · rw [if_pos himm] at hc hd
    exact Encoding.rejectionClass_of_frame himmediate (htyped hkinds rfl rfl)
      (htyped hkinds' rfl rfl) (hapart (.int32 x.immediate) (.int32 y.immediate) rfl)
      (Encoding.encode_eq_error.mp hc) (Encoding.encode_eq_ok.mp hd).1
  · rw [if_neg himm] at hd
    split at hd <;> cases hd

/-- A refused call that would be accepted with other bounded values has a value out of range. -/
theorem rejectionClass_of_sameFrame (hc : c.instruction ∈ Catalogue.instructions)
    (h : c.SameFrame d) {cause : Cause} {w : Word}
    (hr : c.instruction.layout.encode c.operands = .error cause) (hd : d.Accepted w) :
    cause.rejectionClass = .outOfRange := by
  have hdi : d.instruction ∈ Catalogue.instructions := h.instruction ▸ hc
  rw [accepted_iff_layout hdi, h.instruction] at hd
  have hframe (hne : c.instruction ≠ IndexedProduct.instruction) (s : Nat) :
      (operandAt c.operands s).frame = (operandAt d.operands s).frame := by
    rw [← frameAt_of_ne (name_ne hc hne), h.frame,
      frameAt_of_ne (name_ne hdi (h.instruction ▸ hne))]
  rcases Catalogue.layout_cases hc with ⟨e, hl⟩ | hi | ⟨a, ha, hi⟩
  · rw [hl] at hr hd
    have hne : c.instruction ≠ IndexedProduct.instruction := by
      intro hi
      rw [hi] at hl
      cases hl
    have he := Catalogue.comparesRegisters _ hc e (by rw [hl]; exact List.mem_singleton_self e)
    exact Encoding.rejectionClass_of_frame he c.typed (d.typed.trans (by rw [h.instruction]))
      (hframe hne) (Encoding.encode_eq_error.mp hr) (Encoding.encode_eq_ok.mp hd).1
  · rw [hi] at hr hd
    have hsize : elementAt c.operands 0 = elementAt d.operands 0 := by
      apply elementAt_eq_of_frame
      rw [← frameAt_of_ne_three (by decide), h.frame, frameAt_of_ne_three (by decide)]
    simp only [IndexedProduct.instruction, Layout.encode, hsize] at hr hd
    split at hr
    · next hhalf =>
      rw [if_pos hhalf] at hd
      exact indexedProduct_rejectionClass hi h (Encoding.encode_eq_error.mp hr)
        (Encoding.fault_eq_none.mp (Encoding.encode_eq_ok.mp hd).1)
    · next hother =>
      rw [if_neg hother] at hd
      exact indexedProduct_rejectionClass hi h (Encoding.encode_eq_error.mp hr)
        (Encoding.fault_eq_none.mp (Encoding.encode_eq_ok.mp hd).1)
  · have hne : c.instruction ≠ IndexedProduct.instruction := by
      intro hp
      rw [hi] at hp
      cases congrArg Instruction.layout hp
    rw [hi] at hr hd
    exact address_rejectionClass ha hi (h.instruction.trans hi) (hframe hne) hr hd

end Call

end ScalableVector
