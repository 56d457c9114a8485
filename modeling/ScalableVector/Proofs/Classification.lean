import ScalableVector.Proofs.Bounded
import ScalableVector.Proofs.FloatCode
import ScalableVector.Proofs.Immediate
import ScalableVector.Proofs.ShiftCode

/-!
# Classes of rejections

A call is rejected as not implemented if its addressing mode is one that the loads and stores do not
have, as out of range if a bounded value is not permitted for the instruction and the element size,
and as an invalid argument otherwise. The first failing check decides, and the checks stand in an
order of their own for each instruction. Still, a call whose bounded values alone stand against it
is always rejected as out of range.
-/

namespace ScalableVector

def ImmediateRules.uniform? : ImmediateRules → Option ImmediateRule
  | always rule => some rule
  | bySize _ => none

theorem ImmediateRules.at?_of_uniform? {rules : ImmediateRules} {rule : ImmediateRule}
    (h : rules.uniform? = some rule) (size : ElementSize) : rules.at? size = some rule := by
  cases rules with
  | always => exact h
  | bySize => cases h

def ImmediateRule.factor? (rule : ImmediateRule) : Option Nat :=
  match rule.reading with
  | .multiple factor _ => some factor
  | _ => none

theorem ImmediateRule.Admits.dvd {rule : ImmediateRule} {v : Int} (h : rule.Admits v) {factor : Nat}
    (hf : rule.factor? = some factor) : (factor : Int) ∣ v := by
  obtain ⟨lo, hi, reading⟩ := rule
  cases reading with
  | multiple n runs =>
    cases hf
    exact h.2.2
  | _ => cases hf

namespace Call

/-- The call is one of a load or store with an addressing mode that has no encoding. -/
def Unsupported (c : Call) : Prop :=
  ∃ a ∈ Transfer.accesses, c.instruction = a.withAddress ∧
    ∃ x, c.operands.getLast? = some (.address x) ∧ x.mode ∈ [.scalarVector, .vectorImmediate]

/-- A bounded value of the call is not among those that are permitted for its instruction and its
element size. Where these depend on the size, there are none for a size that the instruction does
not have, and then no value counts as exceeding them. -/
inductive Exceeds (c : Call) : Prop
  | immediate {m : Immediate} (hm : m ∈ Immediate.all) (hname : c.instruction.name ∈ m.names)
      {rule : ImmediateRule} (hrule : m.rules.at? (elementAt c.operands 0) = some rule)
      (h : ¬rule.Admits (valueAt c.operands m.slot))
  | shift {g : ShiftGroup} (hname : c.instruction.name ∈ g.names)
      (hsize : elementAt c.operands 0 ∈ g.sizes) {amount : Nat}
      (hamount : valueAt c.operands g.amountSlot = amount)
      (h : ¬g.Admits (elementAt c.operands 0) amount)
  | float (hname : c.instruction.name ∈ ["Fdup", "Fmov"])
      (h : ¬∃ negative e m, FloatImmediate.HasForm (floatAt c.operands 2) negative e m)
  | source (hi : c.instruction = IndexedProduct.instruction)
      (hregister : (vectorAt c.operands 3).number ≤ 31)
      (h : elementAt c.operands 0 = .half ∧ 7 < (vectorAt c.operands 3).number ∨
        elementAt c.operands 0 = .single ∧ 15 < (vectorAt c.operands 3).number)
  /-- The immediate of an address. -/
  | offset {a : Transfer.Access} (ha : a ∈ Transfer.accesses) (hi : c.instruction = a.withAddress)
      {x : Address} (hx : c.operands.getLast? = some (.address x))
      (hmode : x.mode = .scalarImmediate)
      (h : ¬(-8 ≤ x.immediate.toInt ∧ x.immediate.toInt ≤ 7))

end Call

/-- The values that a check lets pass are those that the tables permit for the instruction with the
given name and checks. -/
def Check.Tabulated (name : String) (checks : List Check) : Check → Prop
  | .bounds _ slot lo hi => ∃ m ∈ Immediate.all, name ∈ m.names ∧ m.slot = slot ∧
      ∃ rule ∈ m.rules.uniform?, rule.lo = lo ∧ rule.hi = hi
  | .multiple _ slot factor => ∃ m ∈ Immediate.all, name ∈ m.names ∧ m.slot = slot ∧
      ∃ rule ∈ m.rules.uniform?, ∃ n ∈ rule.factor?, (n : Int) = factor
  | .lane element slot => element = 0 ∧ checks.head? = some (.size 0 .every) ∧
      ∃ m ∈ Immediate.all, name ∈ m.names ∧ m.slot = slot ∧ ∀ size ∈ ElementSizes.every,
        ∃ rule ∈ m.rules.at? size, rule.lo = 0 ∧ rule.hi = lastLane size
  | .shift _ _ (.operand _) | .longShift .. => ∃ g ∈ ShiftGroup.all, name ∈ g.names
  | .shift direction _ .width => direction = .right
  | .float slot => slot = 2 ∧ name ∈ ["Fdup", "Fmov"]
  | _ => True

instance (name : String) (checks : List Check) : (k : Check) → Decidable (k.Tabulated name checks)
  | .bounds .. => inferInstanceAs (Decidable (∃ m ∈ Immediate.all, _ ∧ _ ∧
      ∃ rule ∈ ImmediateRules.uniform? _, _ ∧ _))
  | .multiple .. => inferInstanceAs (Decidable (∃ m ∈ Immediate.all, _ ∧ _ ∧
      ∃ rule ∈ ImmediateRules.uniform? _, ∃ n ∈ ImmediateRule.factor? _, _))
  | .lane .. => inferInstanceAs (Decidable (_ ∧ _ ∧ ∃ m ∈ Immediate.all, _ ∧ _ ∧
      ∀ size ∈ ElementSizes.every, ∃ rule ∈ ImmediateRules.at? _ _, _ ∧ _))
  | .shift _ _ (.operand _) | .longShift .. =>
    inferInstanceAs (Decidable (∃ g ∈ ShiftGroup.all, _))
  | .shift _ _ .width => inferInstanceAs (Decidable (_ = ShiftDirection.right))
  | .float _ => inferInstanceAs (Decidable (_ ∧ _))
  | .size .. | .register _ | .governing _ | .wide _ | .offset _ | .sameWidth ..
  | .elementRegister .. | .aliased .. | .sequential _ | .rotation _ | .unshiftedByte ..
  | .convertible .. =>
    inferInstanceAs (Decidable True)

def Layout.fixed? : Layout → Option Encoding
  | .fixed e => some e
  | _ => none

theorem Layout.eq_of_fixed {l : Layout} {e : Encoding} (h : e ∈ l.fixed?) : l = .fixed e := by
  cases l with
  | fixed e' =>
    cases h
    rfl
  | _ => cases h

theorem Catalogue.tabulated : ∀ i ∈ instructions, ∀ e ∈ i.layout.fixed?, ∀ k ∈ e.checks,
    k.Tabulated i.name e.checks := by
  decide +kernel

namespace Encoding

variable {e : Encoding} {ops : List Operand} {cause : Cause}

/-- Before a value is found out of range, the checks that bound no value have passed. -/
theorem passes_of_outOfRange {before after : List Check} (hchecks : e.checks = before ++ after)
    (hbefore : ∀ k ∈ before, k.isBound = false) (h : e.fault ops = some cause)
    (hclass : cause.rejectionClass = .outOfRange) : ∀ k ∈ before, k.fault ops = none := by
  rw [fault, hchecks, List.findSome?_append] at h
  cases hfirst : before.findSome? (·.fault ops) with
  | none => exact List.findSome?_eq_none_iff.mp hfirst
  | some first =>
    rw [hfirst, Option.some_or] at h
    cases h
    obtain ⟨k, hk, hfault⟩ := List.exists_of_findSome?_eq_some hfirst
    rw [Check.rejectionClass_of_not_isBound (hbefore k hk) hfault] at hclass
    cases hclass

theorem isBound_of_outOfRange (h : e.fault ops = some cause)
    (hclass : cause.rejectionClass = .outOfRange) :
    ∃ k ∈ e.checks, k.isBound = true ∧ k.fault ops = some cause := by
  obtain ⟨k, hk, hfault⟩ := List.exists_of_findSome?_eq_some h
  refine ⟨k, hk, ?_, hfault⟩
  cases hb : k.isBound with
  | true => rfl
  | false =>
    rw [Check.rejectionClass_of_not_isBound hb hfault] at hclass
    cases hclass

theorem rejectionClass_ne_notImplemented (h : e.encode ops = .error cause) :
    cause.rejectionClass ≠ .notImplemented := by
  obtain ⟨k, -, hfault⟩ := List.exists_of_findSome?_eq_some (encode_eq_error.mp h)
  intro hclass
  cases hb : k.isBound with
  | true =>
    rcases Check.rejectionClass_of_isBound hb hfault with hrange | ⟨hinvalid, -⟩
    · rw [hclass] at hrange
      cases hrange
    · rw [hclass] at hinvalid
      cases hinvalid
  | false =>
    rw [Check.rejectionClass_of_not_isBound hb hfault] at hclass
    cases hclass

end Encoding

namespace ShiftGroup

variable {g : ShiftGroup}

theorem exists_encoding {c : Call} (hc : c.instruction ∈ Catalogue.instructions)
    (hname : c.instruction.name ∈ g.names) :
    ∃ (e : Encoding) (amount : Nat), c.instruction.layout = .fixed e ∧
      e.checks = g.shiftChecks ++ g.registerChecks ∧
      valueAt c.operands g.amountSlot = amount := by
  obtain ⟨f, hf, entry, he, hentry, hsignature, -, hchecks, -⟩ :=
    exists_entry g (mem_all g) _ hname
  have hi : f.instruction entry = c.instruction :=
    Catalogue.eq_of_name (Catalogue.mem_of_family (mem_families hf) he) hc hentry
  have hkind : (operandAt c.operands g.amountSlot).kind = .uint32 := by
    apply kind_operandAt c.typed
    rw [← hi, Family.instruction, hsignature]
    cases g <;> rfl
  obtain ⟨amount, hamount⟩ : ∃ n, operandAt c.operands g.amountSlot = .uint32 n := by
    cases ho : operandAt c.operands g.amountSlot with
    | uint32 n => exact ⟨n, rfl⟩
    | _ =>
      rw [ho] at hkind
      cases hkind
  refine ⟨f.encoding entry, amount.toNat, ?_, hchecks, ?_⟩
  · rw [← hi]
    rfl
  · rw [valueAt, hamount]
    rfl

theorem isBound_registerChecks : ∀ k ∈ g.registerChecks, k.isBound = false := by
  cases g <;> simp [registerChecks, Check.isBound]

private theorem findSome?_shiftChecks {ops : List Operand} (h : elementAt ops 0 ∉ g.sizes) :
    ∃ allowed, g.shiftChecks.findSome? (·.fault ops) =
      some (.elementSize (elementAt ops 0) allowed) := by
  cases g with
  | plain | predicated =>
    have hplain : elementAt ops 0 ∉ ElementSizes.plain := h
    exact ⟨.plain, by simp [shiftChecks, Check.fault, Shift.fault, Shift.sizeFault, hplain]⟩
  | narrowing =>
    have hnarrow : elementAt ops 0 ∉ ElementSizes.narrow := h
    exact ⟨.narrow, by simp [shiftChecks, Check.fault, Shift.sizeFault, hnarrow]⟩
  | widening =>
    have hwide : elementAt ops 0 ∉ ElementSizes.wide := h
    exact ⟨.wide, by simp [shiftChecks, Check.fault, Shift.longFault, Shift.sizeFault, hwide]⟩

/-- The amount is what is out of range for a shift, and this for a size that the shift has. -/
theorem not_admits_of_outOfRange {e : Encoding}
    (hchecks : e.checks = g.shiftChecks ++ g.registerChecks) {ops : List Operand} {cause : Cause}
    (h : e.fault ops = some cause) (hclass : cause.rejectionClass = .outOfRange) {amount : Nat}
    (hamount : valueAt ops g.amountSlot = amount) :
    elementAt ops 0 ∈ g.sizes ∧ ¬g.Admits (elementAt ops 0) amount := by
  have hsize : elementAt ops 0 ∈ g.sizes := by
    by_cases hsize : elementAt ops 0 ∈ g.sizes
    · exact hsize
    · obtain ⟨allowed, hfirst⟩ := findSome?_shiftChecks hsize
      rw [Encoding.fault, hchecks, List.findSome?_append, hfirst, Option.some_or] at h
      cases h
      cases hclass
  refine ⟨hsize, fun hadmits => ?_⟩
  obtain ⟨k, hk, hbound, hfault⟩ := Encoding.isBound_of_outOfRange h hclass
  rw [hchecks] at hk
  rcases List.mem_append.mp hk with hk | hk
  · rw [(fault_shiftChecks hamount).mpr ⟨hsize, hadmits⟩ k hk] at hfault
    cases hfault
  · rw [isBound_registerChecks k hk] at hbound
    cases hbound

end ShiftGroup

theorem RejectionClass.eq_of_words {a b : RejectionClass} {s t : String}
    (h : a.words ++ s = b.words ++ t) : a = b := by
  have hhead : (a.words ++ s).toList.head? = (b.words ++ t).toList.head? := by rw [h]
  cases a <;> cases b <;> first | rfl | (simp [words] at hhead)

theorem Rejection.message_iff (r : Rejection) {c : RejectionClass} :
    (∃ rest, r.message = r.mnemonic ++ ": " ++ c.words ++ ": " ++ rest) ↔
      c = r.cause.rejectionClass := by
  rw [message, Cause.message]
  constructor
  · rintro ⟨rest, h⟩
    simp only [String.append_assoc, String.append_right_inj] at h
    exact (RejectionClass.eq_of_words h).symm
  · rintro rfl
    exact ⟨r.cause.words, by simp only [String.append_assoc]⟩

/-- The shift to the right by the whole width is never out of range. -/
theorem Shift.fault_width {size : ElementSize} {cause : Cause}
    (h : Shift.fault .right size size.bits = some cause) :
    cause.rejectionClass ≠ .outOfRange := by
  rw [Shift.fault, Shift.sizeFault] at h
  split at h
  · next hs =>
    have hall : ∀ s ∈ ElementSizes.plain, Shift.amountFault .right s.bits s.bits = none := by decide
    rw [Option.none_or, hall size hs] at h
    cases h
  · cases h
    simp [Cause.rejectionClass]

namespace Call

variable {c : Call} {cause : Cause}

private theorem exceeds_of_bounds {m : Immediate} (hm : m ∈ Immediate.all)
    (hname : c.instruction.name ∈ m.names) {rule : ImmediateRule}
    (hrule : m.rules.at? (elementAt c.operands 0) = some rule) {what : String}
    (h : Shift.boundsFault what (valueAt c.operands m.slot) rule.lo rule.hi = some cause) :
    c.Exceeds := by
  refine .immediate hm hname hrule fun hadmits => ?_
  rw [Shift.boundsFault_eq_none.mpr ⟨hadmits.1, hadmits.2.1⟩] at h
  cases h

theorem exceeds_of_fixed (hc : c.instruction ∈ Catalogue.instructions) {e : Encoding}
    (hl : c.instruction.layout = .fixed e) (h : e.fault c.operands = some cause)
    (hclass : cause.rejectionClass = .outOfRange) : c.Exceeds := by
  obtain ⟨k, hk, hbound, hfault⟩ := Encoding.isBound_of_outOfRange h hclass
  have htable := Catalogue.tabulated _ hc e (by rw [hl]; rfl) k hk
  have hshift (hg : ∃ g ∈ ShiftGroup.all, c.instruction.name ∈ g.names) : c.Exceeds := by
    obtain ⟨g, -, hname⟩ := hg
    obtain ⟨e', amount, hl', hchecks, hamount⟩ := ShiftGroup.exists_encoding hc hname
    cases hl.symm.trans hl'
    obtain ⟨hsize, hnot⟩ := ShiftGroup.not_admits_of_outOfRange hchecks h hclass hamount
    exact .shift hname hsize hamount hnot
  cases k with
  | bounds what slot lo hi =>
    obtain ⟨m, hm, hname, rfl, rule, hrule, rfl, rfl⟩ := htable
    exact exceeds_of_bounds hm hname (ImmediateRules.at?_of_uniform? hrule _) hfault
  | multiple what slot factor =>
    obtain ⟨m, hm, hname, rfl, rule, hrule, n, hn, rfl⟩ := htable
    refine .immediate hm hname (ImmediateRules.at?_of_uniform? hrule _) fun hadmits => ?_
    rw [Check.fault, if_pos (hadmits.dvd hn)] at hfault
    cases hfault
  | lane element slot =>
    obtain ⟨rfl, hhead, m, hm, hname, rfl, hrules⟩ := htable
    obtain ⟨rest, hrest⟩ := List.head?_eq_some_iff.mp hhead
    have hchecks : e.checks = [.size 0 .every] ++ rest := hrest
    have hsize := Encoding.passes_of_outOfRange hchecks (by simp [Check.isBound]) h hclass _
      (List.mem_singleton_self _)
    obtain ⟨rule, hrule, hlo, hhi⟩ := hrules _ (Shift.sizeFault_eq_none.mp hsize)
    rw [Check.fault, ← hlo, ← hhi] at hfault
    exact exceeds_of_bounds hm hname hrule hfault
  | shift direction element amount =>
    cases amount with
    | operand => exact hshift htable
    | width =>
      cases htable
      exact absurd hclass (Shift.fault_width hfault)
  | longShift => exact hshift htable
  | float slot =>
    obtain ⟨rfl, hname⟩ := htable
    apply Exceeds.float hname
    rintro ⟨negative, exponent, m, hform⟩
    rw [Check.fault, FloatImmediate.encode?_iff.mpr ⟨_, _, _, hform, rfl⟩] at hfault
    cases hfault
  | _ => cases hbound

private theorem indexedProduct_row : ∃ m ∈ Immediate.all,
    IndexedProduct.instruction.name ∈ m.names ∧ m.slot = 4 ∧
      (∃ rule ∈ m.rules.at? .half, rule.lo = 0 ∧ rule.hi = 3) ∧
      ∃ rule ∈ m.rules.at? .single, rule.lo = 0 ∧ rule.hi = 1 := by
  decide

private theorem indexedProduct_outOfRange (hi : c.instruction = IndexedProduct.instruction)
    {e : Encoding} {lastIndex lastSource : Int}
    (hchecks : e.checks = IndexedProduct.checks lastIndex lastSource)
    (h : e.fault c.operands = some cause) (hclass : cause.rejectionClass = .outOfRange) :
    elementAt c.operands 0 ∈ [.half, .single] ∧ (vectorAt c.operands 3).number ≤ 31 ∧
      (Shift.boundsFault "index" (valueAt c.operands 4) 0 lastIndex = some cause ∨
        lastSource < (vectorAt c.operands 3).number.toNat) := by
  have hsplit : e.checks = [.size 0 [.half, .single], .register 1, .register 2, .register 3] ++
      [.bounds "index" 4 0 lastIndex, .bounds "zm" 3 0 lastSource] := hchecks
  have hpass := Encoding.passes_of_outOfRange hsplit (by simp [Check.isBound]) h hclass
  have hsize := hpass (.size 0 [.half, .single]) (by simp)
  have hregister := hpass (.register 3) (by simp)
  refine ⟨Shift.sizeFault_eq_none.mp hsize, source_le_of_registerFault hi hregister, ?_⟩
  obtain ⟨k, hk, hbound, hfault⟩ := Encoding.isBound_of_outOfRange h hclass
  rw [hsplit] at hk
  simp only [List.cons_append, List.nil_append, List.mem_cons, List.not_mem_nil, or_false] at hk
  rcases hk with rfl | rfl | rfl | rfl | rfl | rfl
  · cases hbound
  · cases hbound
  · cases hbound
  · cases hbound
  · exact .inl hfault
  · have hvalue : valueAt c.operands 3 = (vectorAt c.operands 3).number.toNat := by
      rw [valueAt, operandAt_source hi]
      rfl
    by_cases hle : ((vectorAt c.operands 3).number.toNat : Int) ≤ lastSource
    · rw [Check.fault, hvalue, Shift.boundsFault_eq_none.mpr ⟨Int.natCast_nonneg _, hle⟩] at hfault
      cases hfault
    · exact .inr (Int.not_le.mp hle)

theorem exceeds_of_indexedProduct (hi : c.instruction = IndexedProduct.instruction)
    (h : IndexedProduct.instruction.layout.encode c.operands = .error cause)
    (hclass : cause.rejectionClass = .outOfRange) : c.Exceeds := by
  obtain ⟨m, hm, hname, hslot, ⟨half, hhalf, hlo, hhi⟩, single, hsingle, hlo', hhi'⟩ :=
    indexedProduct_row
  rw [← hi] at hname
  simp only [IndexedProduct.instruction, Layout.encode] at h
  split at h
  · next hsize =>
    obtain ⟨-, hz, hindex | hsource⟩ :=
      indexedProduct_outOfRange hi rfl (Encoding.encode_eq_error.mp h) hclass
    · rw [← hslot, ← hlo, ← hhi] at hindex
      exact exceeds_of_bounds hm hname (by rw [hsize]; exact hhalf) hindex
    · exact .source hi hz (.inl ⟨hsize, UInt8.lt_iff_toNat_lt.mpr (Int.ofNat_lt.mp hsource)⟩)
  · next hne =>
    obtain ⟨hsizes, hz, hindex | hsource⟩ :=
      indexedProduct_outOfRange hi rfl (Encoding.encode_eq_error.mp h) hclass
    all_goals
      have hsize : elementAt c.operands 0 = .single := by simpa [hne] using hsizes
    · rw [← hslot, ← hlo', ← hhi'] at hindex
      exact exceeds_of_bounds hm hname (by rw [hsize]; exact hsingle) hindex
    · exact .source hi hz (.inr ⟨hsize, UInt8.lt_iff_toNat_lt.mpr (Int.ofNat_lt.mp hsource)⟩)

theorem exceeds_of_address {a : Transfer.Access} (ha : a ∈ Transfer.accesses)
    (hi : c.instruction = a.withAddress)
    (h : a.withAddress.layout.encode c.operands = .error cause)
    (hclass : cause.rejectionClass = .outOfRange) : c.Exceeds := by
  obtain ⟨o₀, o₁, o₂, x, hops, -⟩ := Transfer.Access.operands_withAddress hi
  -- only the check of the offset can bound a value
  have hlast {e : Encoding} {ops : List Operand} {last : Check}
      (hchecks : e.checks = a.checks ++ [last]) (he : e.encode ops = .error cause) :
      last.isBound = true ∧ last.fault ops = some cause := by
    obtain ⟨k, hk, hbound, hfault⟩ :=
      Encoding.isBound_of_outOfRange (Encoding.encode_eq_error.mp he) hclass
    simp only [hchecks, Transfer.Access.checks, List.cons_append, List.nil_append, List.mem_cons,
      List.not_mem_nil, or_false] at hk
    rcases hk with rfl | rfl | rfl | rfl | rfl
    · cases hbound
    · cases hbound
    · cases hbound
    · cases hbound
    · exact ⟨hbound, hfault⟩
  rw [hops, Transfer.Access.encode_withAddress] at h
  split at h
  · cases (hlast rfl h).1
  split at h
  · next hmode =>
    refine .offset ha hi (x := x) (by rw [hops]; rfl) hmode fun hrange => ?_
    have hfault := (hlast rfl h).2
    cases hfault.symm.trans (Shift.boundsFault_eq_none.mpr hrange)
  split at h <;> (cases h; cases hclass)

theorem exceeds_of_outOfRange (hc : c.instruction ∈ Catalogue.instructions)
    (h : c.instruction.layout.encode c.operands = .error cause)
    (hclass : cause.rejectionClass = .outOfRange) : c.Exceeds := by
  rcases Catalogue.layout_cases hc with ⟨e, hl⟩ | hi | ⟨a, ha, hi⟩
  · rw [hl] at h
    exact exceeds_of_fixed hc hl (Encoding.encode_eq_error.mp h) hclass
  · exact exceeds_of_indexedProduct hi (hi ▸ h) hclass
  · exact exceeds_of_address ha hi (hi ▸ h) hclass

section Accepted
variable {w : Word}

private theorem fault_eq_none_of_accepted (hc : c.instruction ∈ Catalogue.instructions)
    (hw : c.Accepted w) {e : Encoding} (hl : c.instruction.layout = .fixed e) {k : Check}
    (hk : k ∈ e.checks) : k.fault c.operands = none := by
  have hlayout := (accepted_iff_layout hc).mp hw
  rw [hl] at hlayout
  exact Encoding.fault_eq_none.mp (Encoding.encode_eq_ok.mp hlayout).1 k hk

private theorem shift_of_accepted (hc : c.instruction ∈ Catalogue.instructions)
    (hw : c.Accepted w) {g : ShiftGroup} (hname : c.instruction.name ∈ g.names) {amount : Nat}
    (hamount : valueAt c.operands g.amountSlot = amount) :
    g.Admits (elementAt c.operands 0) amount := by
  obtain ⟨e, -, hl, hchecks, -⟩ := ShiftGroup.exists_encoding hc hname
  have hpass : ∀ k ∈ g.shiftChecks, k.fault c.operands = none := by
    intro k hk
    apply fault_eq_none_of_accepted hc hw hl
    rw [hchecks]
    exact List.mem_append_left _ hk
  exact ((ShiftGroup.fault_shiftChecks hamount).mp hpass).2

private theorem form_of_accepted (hc : c.instruction ∈ Catalogue.instructions)
    (hw : c.Accepted w) (hname : c.instruction.name ∈ ["Fdup", "Fmov"]) :
    ∃ negative e m, FloatImmediate.HasForm (floatAt c.operands 2) negative e m := by
  have hentries : c.instruction.name ∈ Constant.float.entries.map Entry.name := hname
  obtain ⟨entry, he, hentry⟩ := List.mem_map.mp hentries
  have hi : Constant.float.instruction entry = c.instruction :=
    Catalogue.eq_of_name (Catalogue.mem_of_family FloatImmediate.float_mem he) hc hentry
  have hpass : Check.fault c.operands (.float 2) = none :=
    fault_eq_none_of_accepted hc hw (congrArg Instruction.layout hi).symm
      (by simp [Family.encoding, Constant.float])
  rw [Check.fault] at hpass
  split at hpass
  · next n hn =>
    obtain ⟨negative, e, m, hform, -⟩ := FloatImmediate.encode?_iff.mp hn
    exact ⟨negative, e, m, hform⟩
  · cases hpass

private theorem source_of_accepted (hc : c.instruction ∈ Catalogue.instructions)
    (hw : c.Accepted w) (hi : c.instruction = IndexedProduct.instruction) :
    (vectorAt c.operands 3).number.toNat ≤ if elementAt c.operands 0 = .half then 7 else 15 := by
  have hlayout := (accepted_iff_layout hc).mp hw
  rw [hi] at hlayout
  simp only [IndexedProduct.instruction, Layout.encode] at hlayout
  have hle {e : Encoding} {lastIndex : Int} {lastSource : Nat}
      (hchecks : e.checks = IndexedProduct.checks lastIndex lastSource)
      (he : e.encode c.operands = .ok w) : (vectorAt c.operands 3).number.toNat ≤ lastSource := by
    have hpass := Encoding.fault_eq_none.mp (Encoding.encode_eq_ok.mp he).1
      (.bounds "zm" 3 0 lastSource) (by simp [hchecks, IndexedProduct.checks])
    rw [Check.fault, Shift.boundsFault_eq_none, valueAt, operandAt_source hi] at hpass
    exact Int.ofNat_le.mp hpass.2
  split at hlayout
  · next hhalf =>
    rw [if_pos hhalf]
    exact hle rfl hlayout
  · next hother =>
    rw [if_neg hother]
    exact hle rfl hlayout

private theorem offset_of_accepted (hc : c.instruction ∈ Catalogue.instructions)
    (hw : c.Accepted w) {a : Transfer.Access} (hi : c.instruction = a.withAddress) {x : Address}
    (hx : c.operands.getLast? = some (.address x)) (hmode : x.mode = .scalarImmediate) :
    -8 ≤ x.immediate.toInt ∧ x.immediate.toInt ≤ 7 := by
  have hlayout := (accepted_iff_layout hc).mp hw
  obtain ⟨o₀, o₁, o₂, y, hops, -⟩ := Transfer.Access.operands_withAddress hi
  obtain rfl : y = x := by simpa [hops] using hx
  rw [hi, hops, Transfer.Access.encode_withAddress, if_neg (by rw [hmode]; decide),
    if_pos hmode] at hlayout
  have hpass := Encoding.fault_eq_none.mp (Encoding.encode_eq_ok.mp hlayout).1
    (.bounds "offset" 4 (-8) 7) (List.mem_append_right _ (List.mem_singleton_self _))
  exact Shift.boundsFault_eq_none.mp hpass

theorem Exceeds.not_accepted (h : c.Exceeds) (hc : c.instruction ∈ Catalogue.instructions) :
    ¬c.Accepted w := by
  intro hw
  cases h with
  | immediate hm hname hrule h =>
    obtain ⟨rule, hrule', hadmits⟩ := Immediate.admits_of_accepted hm hc hname hw
    cases hrule.symm.trans hrule'
    exact h hadmits
  | shift hname hsize hamount h => exact h (shift_of_accepted hc hw hname hamount)
  | float hname h => exact h (form_of_accepted hc hw hname)
  | source hi hregister h =>
    have hle := source_of_accepted hc hw hi
    rcases h with ⟨hsize, hlt⟩ | ⟨hsize, hlt⟩
    · rw [if_pos hsize] at hle
      exact absurd hle (Nat.not_le.mpr (UInt8.lt_iff_toNat_lt.mp hlt))
    · rw [if_neg (by rw [hsize]; decide)] at hle
      exact absurd hle (Nat.not_le.mpr (UInt8.lt_iff_toNat_lt.mp hlt))
  | offset ha hi hx hmode h => exact h (offset_of_accepted hc hw hi hx hmode)

end Accepted

theorem notImplemented_iff (hc : c.instruction ∈ Catalogue.instructions) :
    (∃ cause, c.instruction.layout.encode c.operands = .error cause ∧
      cause.rejectionClass = .notImplemented) ↔ c.Unsupported := by
  constructor
  · rintro ⟨cause, h, hclass⟩
    rcases Catalogue.layout_cases hc with ⟨e, hl⟩ | hi | ⟨a, ha, hi⟩
    · rw [hl] at h
      exact absurd hclass (Encoding.rejectionClass_ne_notImplemented h)
    · rw [hi] at h
      simp only [IndexedProduct.instruction, Layout.encode] at h
      split at h <;> exact absurd hclass (Encoding.rejectionClass_ne_notImplemented h)
    · obtain ⟨o₀, o₁, o₂, x, hops, -⟩ := Transfer.Access.operands_withAddress hi
      refine ⟨a, ha, hi, x, by rw [hops]; rfl, ?_⟩
      rw [hi, hops, Transfer.Access.encode_withAddress] at h
      split at h
      · exact absurd hclass (Encoding.rejectionClass_ne_notImplemented h)
      split at h
      · exact absurd hclass (Encoding.rejectionClass_ne_notImplemented h)
      split at h
      · next hmode => exact hmode
      · cases h
        cases hclass
  · rintro ⟨a, -, hi, y, hy, hmode⟩
    obtain ⟨o₀, o₁, o₂, x, hops, -⟩ := Transfer.Access.operands_withAddress hi
    obtain rfl : x = y := by simpa [hops] using hy
    refine ⟨.unsupportedMode x.mode, ?_, rfl⟩
    have hscalar : x.mode ≠ .scalarScalar := by
      intro heq
      rw [heq] at hmode
      exact absurd hmode (by decide)
    have himmediate : x.mode ≠ .scalarImmediate := by
      intro heq
      rw [heq] at hmode
      exact absurd hmode (by decide)
    rw [hi, hops, Transfer.Access.encode_withAddress, if_neg hscalar, if_neg himmediate,
      if_pos hmode]

/-- A fresh emitter that allows all extensions names the instruction in its trace as it does in the
message of a rejection, and the message has one class. A call is not implemented exactly if its
addressing mode has no encoding, it is out of range only if a bounded value exceeds what is
permitted, and otherwise it is an invalid argument. If other bounded values alone would make it
accepted, it is out of range. -/
theorem rejections_classified (hc : c.instruction ∈ Catalogue.instructions) :
    (∀ (σ : Type) [Sink σ] (sink : σ),
      let e := (Emitter.new EmitterOptions.standard.traced sink).emit c
      e.rejection = c.error .all ∧ ∀ w, c.Accepted w →
        e.events = #[.emitted c.instruction.mnemonic (Sink.position sink) w]) ∧
    (c.Unsupported ∨ c.Exceeds → ∃ r, c.error .all = some r) ∧
    ∀ r, c.error .all = some r →
      (∀ rejectionClass : RejectionClass,
        (∃ rest, r.message =
          c.instruction.mnemonic ++ ": " ++ rejectionClass.words ++ ": " ++ rest) ↔
            rejectionClass = r.cause.rejectionClass) ∧
      (r.cause.rejectionClass = .notImplemented ↔ c.Unsupported) ∧
      (r.cause.rejectionClass = .outOfRange → c.Exceeds) ∧
      (¬c.Unsupported → ¬c.Exceeds → r.cause.rejectionClass = .invalidArgument) ∧
      ∀ d w, c.SameFrame d → d.Accepted w → r.cause.rejectionClass = .outOfRange := by
  refine ⟨?_, ?_, ?_⟩
  · intro σ _ sink
    refine ⟨(Emitter.emit_of_open (e := Emitter.new _ sink) rfl c).2.2, ?_⟩
    intro w hw
    have hencode : c.encode EmitterOptions.standard.traced.features = .ok w := accepted_iff.mp hw
    simp only [Emitter.new, Emitter.emit, hencode]
    rfl
  · rintro (hmode | hexceeds)
    · obtain ⟨cause, h, -⟩ := (notImplemented_iff hc).mpr hmode
      exact ⟨⟨_, cause⟩, (error_iff_layout hc).mpr ⟨rfl, h⟩⟩
    · rcases words_or_error .all c with ⟨w, hw, -⟩ | ⟨r, -, hr⟩
      · exact absurd hw (hexceeds.not_accepted hc)
      · exact ⟨r, hr⟩
  · intro r hr
    obtain ⟨hmnemonic, h⟩ := (error_iff_layout hc).mp hr
    have hunsupported : r.cause.rejectionClass = .notImplemented ↔ c.Unsupported := by
      rw [← notImplemented_iff hc]
      constructor
      · intro hclass
        exact ⟨r.cause, h, hclass⟩
      · rintro ⟨cause, h', hclass⟩
        cases h.symm.trans h'
        exact hclass
    have hexceeds := exceeds_of_outOfRange hc h
    refine ⟨?_, hunsupported, hexceeds, ?_, ?_⟩
    · intro rejectionClass
      rw [← hmnemonic]
      exact r.message_iff
    · intro hmode hvalue
      cases hclass : r.cause.rejectionClass with
      | invalidArgument => rfl
      | outOfRange => exact absurd (hexceeds hclass) hvalue
      | notImplemented => exact absurd (hunsupported.mp hclass) hmode
    · intro d w hframe hd
      exact rejectionClass_of_sameFrame hc hframe h hd

private def halfProduct (zm : VectorRegister) (index : UInt32) : Call :=
  ⟨IndexedProduct.instruction, [.element .half, .vector ⟨1⟩, .vector ⟨2⟩, .vector zm, .uint32 index,
    .rotation ⟨0⟩], rfl⟩

/-- Both the source and the index are too large, and nothing else is wrong. -/
theorem halfProduct_outOfRange :
    (halfProduct ⟨3⟩ 0).Accepted 0x64a31041 ∧ (halfProduct ⟨9⟩ 5).Exceeds ∧
      ¬(halfProduct ⟨9⟩ 5).Unsupported ∧ ∃ r, (halfProduct ⟨9⟩ 5).error .all = some r ∧
        r.cause.rejectionClass = .outOfRange ∧
        r.message = "fcmla: out of range: index 5 must be within [0, 3]" := by
  have haccepted : (halfProduct ⟨3⟩ 0).Accepted 0x64a31041 := by decide +kernel
  have hmem : (halfProduct ⟨9⟩ 5).instruction ∈ Catalogue.instructions :=
    List.mem_append_right _ List.mem_cons_self
  have hframe : (halfProduct ⟨9⟩ 5).SameFrame (halfProduct ⟨3⟩ 0) := by
    refine ⟨rfl, fun slot => ?_⟩
    match slot with
    | 0 | 1 | 2 | 3 | 4 | 5 => decide
    | _ + 6 => rfl
  obtain ⟨-, -, h⟩ := rejections_classified hmem
  have hr : (halfProduct ⟨9⟩ 5).error .all = some ⟨"fcmla", .bounds "index" 5 0 3⟩ := by
    decide +kernel
  obtain ⟨-, hmode, hexceeds, -, hrange⟩ := h _ hr
  have hclass := hrange _ _ hframe haccepted
  refine ⟨haccepted, hexceeds hclass, ?_, _, hr, hclass, by decide +kernel⟩
  intro hunsupported
  cases hmode.mpr hunsupported

end Call

end ScalableVector
