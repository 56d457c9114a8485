import ScalableVector.Proofs.Renaming
import ScalableVector.Proofs.Twins

/-!
# Recovery of operands

The word and the checks of an encoding determine the operands it accepts. The fields give the
numbers of most operands back, some operands share a field, and the checks settle the rest. Whether
all operands are settled is computed from the encoding; every encoding of the catalogue passes.
-/

namespace ScalableVector

/-- The element sizes that a check allows in the slots it looks at. -/
def Check.keys (slots : List Nat) : Check → Option (List (List ElementSize))
  | .size s allowed => if slots = [s] then some (allowed.map ([·])) else none
  | .convertible _ s t table => if slots = [s, t] then some (table.map Prod.fst) else none
  | _ => none

def ShiftAmount.slots : ShiftAmount → List Nat
  | .operand slot => [slot]
  | .width => []

namespace Encoding

def keys (e : Encoding) (slots : List Nat) : List (List ElementSize) :=
  (e.checks.findSome? (·.keys slots)).getD []

def selected (table : List (List ElementSize × Nat)) (sizes : List ElementSize) : Word :=
  BitVec.ofNat 32 ((table.lookup sizes).getD 0)

def holdsPart (e : Encoding) (signature : List OperandKind) (part : Shift.Part)
    (direction : ShiftDirection) (element : Nat) (amount : ShiftAmount) : Bool :=
  e.fields.any fun f =>
    decide (f.code = .shift part direction element amount) && e.holdsAll signature f

/-- The field and the checks determine the operand in a slot, alone or together with others. -/
def settledBy (e : Encoding) (signature : List OperandKind) (slot : Nat) (f : Field) : Bool :=
  match f.code with
  | .select slots table =>
    slots.contains slot && slots.all (fun s => signature[s]? == some .element) &&
      !(e.keys slots).isEmpty && (e.keys slots).all fun k => (e.keys slots).all fun l =>
        k == l || f.placed (selected table k) != f.placed (selected table l)
  | .shift _ direction element amount =>
    (element :: amount.slots).contains slot && signature[element]? == some .element &&
      amount.slots.all (fun s => signature[s]? == some .uint32) &&
      [.tszh, .tszl, .imm3].all (fun part =>
        e.holdsPart signature part direction element amount) &&
      e.checks.contains (.shift direction element amount)
  | .longShift element amount =>
    (slot == element || slot == amount) && signature[element]? == some .element &&
      signature[amount]? == some .uint32 && e.holdsAll signature f &&
      e.checks.contains (.longShift element amount)
  | .lane element index =>
    (slot == element || slot == index) && signature[element]? == some .element &&
      signature[index]? == some .uint32 && e.holdsAll signature f &&
      e.checks.contains (.size element .every) && e.checks.contains (.lane element index)
  | .float s =>
    slot == s && signature[s]? == some .float && e.holdsAll signature f &&
      e.checks.contains (.float s)
  | .quotient s divisor =>
    slot == s && signature[s]? == some .int32 && decide (f.reach ≤ 32) && f.holds f.reach &&
      e.checks.contains (.multiple "offset" s divisor) &&
      (e.ranges signature s).any fun r => decide (r.2 - r.1 < divisor * (1 <<< f.reach : Nat))
  | .operand s =>
    slot == s && signature[s]? == some .rotation && f.holdsBit 1 &&
      e.checks.contains (.rotation s)
  | .is64 _ => false

def settles (e : Encoding) (signature : List OperandKind) (slot : Nat) : Bool :=
  e.givesNumber signature slot && signature[slot]?.any OperandKind.numbered ||
    e.givesNumber signature slot && signature[slot]? == some .general && e.asksValid slot &&
      e.givesWidth signature slot ||
    e.fields.any (e.settledBy signature slot)

/-- The operand in a slot follows from another one. -/
def follows (e : Encoding) (signature : List OperandKind) (slot : Nat) : Bool :=
  e.checks.any fun
    | .aliased _ s _ t => t == slot && e.settles signature s
    | .sequential (s :: rest) =>
      rest.contains slot && e.settles signature s &&
        (s :: rest).all fun t => signature[t]? == some .vector
    | _ => false

def recovers (e : Encoding) (signature : List OperandKind) : Bool :=
  (List.range signature.length).all fun slot =>
    e.settles signature slot || e.follows signature slot

private theorem mem_of_lookup {α β : Type} [BEq α] [LawfulBEq α] {k : α} {v : β}
    {table : List (α × β)} (h : table.lookup k = some v) : k ∈ table.map Prod.fst := by
  obtain ⟨l, r, rfl, -⟩ := List.lookup_eq_some_iff.mp h
  simp

private theorem mem_checkKeys {slots : List Nat} {ops : List Operand} {c : Check}
    {l : List (List ElementSize)} (hf : c.fault ops = none) (hk : c.keys slots = some l) :
    slots.map (elementAt ops) ∈ l := by
  cases c with
  | size s allowed =>
    rw [Check.keys] at hk
    split at hk
    · next hs =>
      cases hk
      subst hs
      exact List.mem_map.mpr ⟨_, Shift.sizeFault_eq_none.mp hf, rfl⟩
    · cases hk
  | convertible _ s t table =>
    rw [Check.keys] at hk
    split at hk
    · next hs =>
      cases hk
      subst hs
      rw [Check.fault] at hf
      split at hf
      · next hl => exact mem_of_lookup hl
      · cases hf
    · cases hk
  | _ => cases hk

theorem mem_keys {e : Encoding} {slots : List Nat} {ops : List Operand} (hf : e.fault ops = none)
    (hk : (e.keys slots).isEmpty = false) : slots.map (elementAt ops) ∈ e.keys slots := by
  rw [keys] at hk ⊢
  cases hfind : e.checks.findSome? (·.keys slots) with
  | none => simp [hfind] at hk
  | some l =>
    obtain ⟨c, hc, hl⟩ := List.exists_of_findSome?_eq_some hfind
    exact mem_checkKeys (fault_eq_none.mp hf c hc) hl

end Encoding

theorem Check.aliased_of_fault {ops : List Operand} {first second : String} {s t : Nat}
    (h : (Check.aliased first s second t).fault ops = none) :
    operandAt ops s = operandAt ops t := by
  rw [Check.fault] at h
  split at h
  · assumption
  · cases h

theorem Check.sequential_of_fault {ops : List Operand} {slots : List Nat}
    (h : (Check.sequential slots).fault ops = none) :
    VectorRegister.sequential (slots.map (vectorAt ops)) = true := by
  rw [Check.fault] at h
  split at h
  · assumption
  · cases h

theorem value_of_vector {ops : List Operand} {slot : Nat}
    (h : (operandAt ops slot).kind = .vector) :
    valueAt ops slot = (vectorAt ops slot).number.toNat := by
  rw [valueAt, vectorAt]
  cases ho : operandAt ops slot with
  | vector z => rfl
  | _ => simp [ho, Operand.kind] at h

namespace Encoding.Twins

variable {e : Encoding} {signature : List OperandKind} {a b : List Operand}

private theorem value_of_element {ops : List Operand} {slot : Nat}
    (h : (operandAt ops slot).kind = .element) :
    valueAt ops slot = (elementAt ops slot).code.toNat := by
  rw [valueAt, elementAt]
  cases ho : operandAt ops slot with
  | element s => rfl
  | _ => simp [ho, Operand.kind] at h

private theorem operand_eq_of_element (h : e.Twins signature a b) {slot : Nat}
    (hk : signature[slot]? = some .element) (hs : elementAt a slot = elementAt b slot) :
    operandAt a slot = operandAt b slot := by
  obtain ⟨ha, hb⟩ := h.same_kind hk
  exact h.operand_eq_of_value hk rfl (by rw [value_of_element ha, value_of_element hb, hs])

private theorem select_settles (h : e.Twins signature a b) {f : Field} (hf : f ∈ e.fields)
    {slots : List Nat} {table : List (List ElementSize × Nat)} (hc : f.code = .select slots table)
    (hk : (e.keys slots).isEmpty = false)
    (hd : ∀ k ∈ e.keys slots, ∀ l ∈ e.keys slots,
      k = l ∨ f.placed (selected table k) ≠ f.placed (selected table l))
    {slot : Nat} (hslot : slot ∈ slots) : elementAt a slot = elementAt b slot := by
  have hp := h.placed_agrees hf
  rw [hc] at hp
  rcases hd _ (mem_keys h.accepted_left hk) _ (mem_keys h.accepted_right hk) with heq | hne
  · exact List.map_inj_left.mp heq slot hslot
  · exact absurd hp hne

private theorem pair_settles (h : e.Twins signature a b) {element amount slot : Nat}
    (hs : slot = element ∨ slot = amount) (he : signature[element]? = some .element)
    (hm : signature[amount]? = some .uint32)
    (heq : elementAt a element = elementAt b element ∧ valueAt a amount = valueAt b amount) :
    operandAt a slot = operandAt b slot := by
  rcases hs with rfl | rfl
  · exact h.operand_eq_of_element he heq.1
  · exact h.operand_eq_of_value hm rfl heq.2

private theorem part_agrees (h : e.Twins signature a b) {part : Shift.Part}
    {direction : ShiftDirection} {element : Nat} {amount : ShiftAmount}
    (hp : e.holdsPart signature part direction element amount = true) :
    (Code.shift part direction element amount).value a =
      (Code.shift part direction element amount).value b := by
  obtain ⟨f, hf, hp⟩ := List.any_eq_true.mp hp
  rw [Bool.and_eq_true, decide_eq_true_eq] at hp
  rw [← hp.1]
  exact h.number_agrees hf hp.2

private theorem shift_settles (h : e.Twins signature a b) {direction : ShiftDirection}
    {element : Nat} {amount : ShiftAmount}
    (hparts : ∀ part, e.holdsPart signature part direction element amount = true)
    (hcheck : Check.shift direction element amount ∈ e.checks) :
    elementAt a element = elementAt b element ∧
      amount.value a element = amount.value b element := by
  have hsplit (f g : Shift.Fields) (hget : ∀ part, f.get part = g.get part) : f = g := by
    obtain ⟨fh, fl, fi⟩ := f
    obtain ⟨gh, gl, gi⟩ := g
    rw [show fh = gh from hget .tszh, show fl = gl from hget .tszl, show fi = gi from hget .imm3]
  exact Shift.split_injective (fault_eq_none.mp h.accepted_left _ hcheck)
    (fault_eq_none.mp h.accepted_right _ hcheck)
    (hsplit _ _ fun part => h.part_agrees (hparts part))

private theorem float_settles (h : e.Twins signature a b) {f : Field} (hf : f ∈ e.fields)
    {slot : Nat} (hc : f.code = .float slot) (hk : signature[slot]? = some .float)
    (hall : e.holdsAll signature f = true) (hcheck : Check.float slot ∈ e.checks) :
    operandAt a slot = operandAt b slot := by
  have hv := congrArg BitVec.toNat (h.number_agrees hf hall)
  have hfa := fault_eq_none.mp h.accepted_left _ hcheck
  have hfb := fault_eq_none.mp h.accepted_right _ hcheck
  rw [hc] at hv
  rw [Check.fault] at hfa hfb
  split at hfa
  · next m hm =>
    split at hfb
    · next n hn =>
      obtain ⟨hda, hma⟩ := FloatImmediate.decode_of_encode? hm
      obtain ⟨hdb, hnb⟩ := FloatImmediate.decode_of_encode? hn
      simp only [Code.value, hm, hn, Option.getD_some, BitVec.toNat_ofNat] at hv
      have hx : floatAt a slot = floatAt b slot := by
        rw [← hda, ← hdb, show m = n by omega]
      obtain ⟨ha, hb⟩ := h.same_kind hk
      rw [floatAt, floatAt] at hx
      cases hoa : operandAt a slot with
      | float x =>
        cases hob : operandAt b slot with
        | float y =>
          rw [hoa, hob] at hx
          exact congrArg Operand.float hx
        | _ => simp [hob, Operand.kind] at hb
      | _ => simp [hoa, Operand.kind] at ha
    · cases hfb
  · cases hfa

private theorem dvd_of_multiple {ops : List Operand} {what : String} {slot : Nat} {factor : Int}
    (h : (Check.multiple what slot factor).fault ops = none) : factor ∣ valueAt ops slot := by
  rw [Check.fault] at h
  split at h
  · assumption
  · cases h

private theorem quotient_settles (h : e.Twins signature a b) {f : Field} (hf : f ∈ e.fields)
    {slot divisor : Nat} (hc : f.code = .quotient slot divisor) (hreach : f.reach ≤ 32)
    (hn : f.holds f.reach = true) {what : String}
    (hcheck : Check.multiple what slot divisor ∈ e.checks) {r : Int × Int}
    (hr : r ∈ e.ranges signature slot) (hlt : r.2 - r.1 < divisor * (1 <<< f.reach : Nat)) :
    valueAt a slot = valueAt b slot := by
  have hv := h.code_agrees hf hn
  rw [hc] at hv
  replace hv := emod_of_setWidth hreach hv
  have ha := value_mem_range h.typed_left h.accepted_left h.rotations_left hr
  have hb := value_mem_range h.typed_right h.accepted_right h.rotations_right hr
  obtain ⟨m, hm⟩ := dvd_of_multiple (fault_eq_none.mp h.accepted_left _ hcheck)
  obtain ⟨n, hn⟩ := dvd_of_multiple (fault_eq_none.mp h.accepted_right _ hcheck)
  have hpos : (0 : Int) < divisor := by
    rcases Nat.eq_zero_or_pos divisor with rfl | hd
    · simp at hlt
      omega
    · omega
  rw [hm, hn, Int.mul_tdiv_cancel_left _ (by omega), Int.mul_tdiv_cancel_left _ (by omega)] at hv
  refine eq_of_emod (m := divisor * (1 <<< f.reach)) ?_ ha hb (by exact_mod_cast hlt)
  rw [hm, hn, Int.natCast_mul, Int.mul_emod_mul_of_pos _ _ hpos, Int.mul_emod_mul_of_pos _ _ hpos,
    hv]

private theorem rotation_settles (h : e.Twins signature a b) {f : Field} (hf : f ∈ e.fields)
    {slot : Nat} (hc : f.code = .operand slot) (hk : signature[slot]? = some .rotation)
    (hbit : f.holdsBit 1 = true) (hcheck : Check.rotation slot ∈ e.checks) :
    operandAt a slot = operandAt b slot := by
  have hv := h.bit_agrees hf hbit
  have hx := Check.mem_of_rotation (fault_eq_none.mp h.accepted_left _ hcheck)
  have hy := Check.mem_of_rotation (fault_eq_none.mp h.accepted_right _ hcheck)
  obtain ⟨ha, hb⟩ := h.same_kind hk
  rw [hc] at hv
  simp only [Code.value, valueAt, rotationAt] at hv hx hy
  cases hoa : operandAt a slot with
  | rotation x =>
    cases hob : operandAt b slot with
    | rotation y =>
      rw [hoa] at hx hv
      rw [hob] at hy hv
      simp only [List.mem_cons, List.not_mem_nil, or_false] at hx hy
      rcases hx with rfl | rfl <;> rcases hy with rfl | rfl <;>
        first | rfl | exact absurd hv (by decide)
    | _ => simp [hob, Operand.kind] at hb
  | _ => simp [hoa, Operand.kind] at ha

private theorem settledBy_sound (h : e.Twins signature a b) {f : Field} (hf : f ∈ e.fields)
    {slot : Nat} (hs : e.settledBy signature slot f = true) :
    operandAt a slot = operandAt b slot := by
  have passes {c : Check} (hc : c ∈ e.checks) : c.fault a = none ∧ c.fault b = none :=
    ⟨fault_eq_none.mp h.accepted_left c hc, fault_eq_none.mp h.accepted_right c hc⟩
  rw [settledBy] at hs
  split at hs
  · next slots table hc =>
    simp only [Bool.and_eq_true, List.contains_eq_mem, decide_eq_true_eq, List.all_eq_true,
      beq_iff_eq, Bool.not_eq_true', Bool.or_eq_true, bne_iff_ne] at hs
    obtain ⟨⟨⟨hslot, hkinds⟩, hkeys⟩, hdistinct⟩ := hs
    exact h.operand_eq_of_element (hkinds slot hslot)
      (h.select_settles hf hc hkeys hdistinct hslot)
  · next part direction element amount hc =>
    simp only [Bool.and_eq_true, beq_iff_eq, List.contains_eq_mem, decide_eq_true_eq,
      List.all_eq_true, List.mem_cons] at hs
    obtain ⟨⟨⟨⟨hslot, he⟩, hm⟩, hparts⟩, hcheck⟩ := hs
    have hall : ∀ part, e.holdsPart signature part direction element amount = true := by
      intro part
      cases part <;> exact hparts _ (by simp)
    obtain ⟨hsize, hamount⟩ := h.shift_settles hall hcheck
    rcases hslot with rfl | hslot
    · exact h.operand_eq_of_element he hsize
    · cases amount with
      | operand s =>
        cases List.mem_singleton.mp hslot
        exact h.operand_eq_of_value (hm _ hslot) rfl hamount
      | width => cases hslot
  · next element amount hc =>
    simp only [Bool.and_eq_true, Bool.or_eq_true, beq_iff_eq, List.contains_eq_mem,
      decide_eq_true_eq] at hs
    obtain ⟨⟨⟨⟨hslot, he⟩, hm⟩, hall⟩, hcheck⟩ := hs
    have hv := h.number_agrees hf hall
    rw [hc] at hv
    exact h.pair_settles hslot he hm
      (Shift.longBits_injective (passes hcheck).1 (passes hcheck).2 hv)
  · next element index hc =>
    simp only [Bool.and_eq_true, Bool.or_eq_true, beq_iff_eq, List.contains_eq_mem,
      decide_eq_true_eq] at hs
    obtain ⟨⟨⟨⟨⟨hslot, he⟩, hm⟩, hall⟩, hsize⟩, hcheck⟩ := hs
    have hsa := Shift.sizeFault_eq_none.mp (passes hsize).1
    have hsb := Shift.sizeFault_eq_none.mp (passes hsize).2
    have hia := Shift.boundsFault_eq_none.mp (passes hcheck).1
    have hib := Shift.boundsFault_eq_none.mp (passes hcheck).2
    have hv := h.number_agrees hf hall
    rw [hc] at hv
    simp only [Code.value] at hv
    refine h.pair_settles hslot he hm (laneCode_injective hsa hsb hia hib ?_)
    rw [← toNat_laneBits hsa hia, ← toNat_laneBits hsb hib, hv]
  · next s hc =>
    simp only [Bool.and_eq_true, beq_iff_eq, List.contains_eq_mem, decide_eq_true_eq] at hs
    obtain ⟨⟨⟨rfl, hk⟩, hall⟩, hcheck⟩ := hs
    exact h.float_settles hf hc hk hall hcheck
  · next s divisor hc =>
    simp only [Bool.and_eq_true, beq_iff_eq, List.contains_eq_mem, decide_eq_true_eq,
      List.any_eq_true] at hs
    obtain ⟨⟨⟨⟨⟨rfl, hk⟩, hreach⟩, hn⟩, hcheck⟩, r, hr, hlt⟩ := hs
    exact h.operand_eq_of_value hk rfl (h.quotient_settles hf hc hreach hn hcheck hr hlt)
  · next s hc =>
    simp only [Bool.and_eq_true, beq_iff_eq, List.contains_eq_mem, decide_eq_true_eq] at hs
    obtain ⟨⟨⟨rfl, hk⟩, hbit⟩, hcheck⟩ := hs
    exact h.rotation_settles hf hc hk hbit hcheck
  · cases hs

private theorem settles_sound (h : e.Twins signature a b) {slot : Nat}
    (hs : e.settles signature slot = true) : operandAt a slot = operandAt b slot := by
  simp only [settles, Bool.or_eq_true, Bool.and_eq_true, beq_iff_eq, Option.any_eq_true] at hs
  rcases hs with (⟨hn, kind, hk, hnum⟩ | ⟨⟨⟨hn, hk⟩, hv⟩, hw⟩) | hf
  · exact h.operand_eq_of_value hk hnum (h.value_eq hn)
  · exact h.general_eq hk hn hv hw
  · obtain ⟨f, hf, hs⟩ := List.any_eq_true.mp hf
    exact h.settledBy_sound hf hs

private theorem sequential_inj {z : VectorRegister} {xs ys : List VectorRegister}
    (hl : xs.length = ys.length) (hx : VectorRegister.sequential (z :: xs) = true)
    (hy : VectorRegister.sequential (z :: ys) = true) : xs = ys := by
  induction xs generalizing z ys with
  | nil => exact (List.length_eq_zero_iff.mp hl.symm).symm
  | cons x xs ih =>
    cases ys with
    | nil => cases hl
    | cons y ys =>
      simp only [VectorRegister.sequential, Bool.and_eq_true, decide_eq_true_eq] at hx hy
      obtain ⟨rfl, hx⟩ := hx
      obtain ⟨rfl, hy⟩ := hy
      rw [ih (Nat.succ.inj hl) hx hy]

private theorem follows_sound (h : e.Twins signature a b) {slot : Nat}
    (hf : e.follows signature slot = true) : operandAt a slot = operandAt b slot := by
  obtain ⟨c, hc, hs⟩ := List.any_eq_true.mp hf
  have ha := fault_eq_none.mp h.accepted_left c hc
  have hb := fault_eq_none.mp h.accepted_right c hc
  split at hs
  · next first s second t =>
    simp only [Bool.and_eq_true, beq_iff_eq] at hs
    obtain ⟨rfl, hs⟩ := hs
    rw [← Check.aliased_of_fault ha, ← Check.aliased_of_fault hb, h.settles_sound hs]
  · next s rest =>
    simp only [Bool.and_eq_true, List.contains_eq_mem, decide_eq_true_eq, List.all_eq_true,
      beq_iff_eq] at hs
    obtain ⟨⟨hslot, hs⟩, hkinds⟩ := hs
    have hhead : vectorAt a s = vectorAt b s := by
      rw [vectorAt, h.settles_sound hs, vectorAt]
    have hsa := Check.sequential_of_fault ha
    have hsb := Check.sequential_of_fault hb
    rw [List.map_cons] at hsa hsb
    rw [← hhead] at hsb
    have hrest := sequential_inj (by rw [List.length_map, List.length_map]) hsa hsb
    have hk := hkinds slot (List.mem_cons_of_mem _ hslot)
    obtain ⟨hka, hkb⟩ := h.same_kind hk
    exact h.operand_eq_of_value hk rfl (by
      rw [value_of_vector hka, value_of_vector hkb, List.map_inj_left.mp hrest slot hslot])
  · cases hs

/-- Operands that give the same word are the same, if the encoding recovers them. -/
theorem operands_eq (h : e.Twins signature a b) (hr : e.recovers signature = true) : a = b := by
  have hla : a.length = signature.length := by rw [← h.typed_left, List.length_map]
  have hlb : b.length = signature.length := by rw [← h.typed_right, List.length_map]
  apply List.ext_getElem (hla.trans hlb.symm)
  intro slot hsa hsb
  have hslot := List.all_eq_true.mp hr slot (List.mem_range.mpr (hla ▸ hsa))
  have heq : operandAt a slot = operandAt b slot := by
    rcases Bool.or_eq_true_iff.mp hslot with hs | hs
    · exact h.settles_sound hs
    · exact h.follows_sound hs
  simpa only [operandAt, List.getD_eq_getElem?_getD, List.getElem?_eq_getElem hsa,
    List.getElem?_eq_getElem hsb, Option.getD_some] using heq

end Encoding.Twins

namespace Catalogue

private theorem families_recover : ∀ f ∈ families,
    ((Encoding.mk f.checks 0 f.fields).trimmed f.signature).recovers
      (f.signature.map .unqualified) = true := by
  decide +kernel

private theorem others_recover :
    ∀ i ∈ IndexedProduct.instruction :: Transfer.accesses.flatMap Transfer.Access.instructions,
      ∀ t ∈ i.templates, t.trimmed.recovers (t.signature.map .unqualified) = true := by
  decide +kernel

theorem recovers {i : Instruction} (hi : i ∈ instructions) {t : Template} (ht : t ∈ i.templates) :
    t.trimmed.recovers (t.signature.map .unqualified) = true := by
  rcases List.mem_append.mp hi with hi | hi
  · obtain ⟨f, hf, hi⟩ := List.mem_flatMap.mp hi
    obtain ⟨entry, -, rfl⟩ := List.mem_map.mp hi
    cases List.mem_singleton.mp ht
    exact families_recover f hf
  · exact others_recover i hi t ht

end Catalogue

end ScalableVector
