import ScalableVector.Instruction.Catalogue
import ScalableVector.Proofs.Run
import ScalableVector.Proofs.Slice

/-!
# Templates

A template is one way to encode an instruction: the kinds of its operands and a single encoding.
Most instructions have one template. An instruction that singles out an element size has one for
that size and one for the others, and a load or store that takes an address has those of the forms
with a register and with an immediate as the offset. Every accepted call follows a template.
-/

namespace ScalableVector

/-- One way to encode an instruction. -/
structure Template where
  name : String
  signature : List OperandKind
  encoding : Encoding

/-- The template gives the word for the operands. -/
structure Template.Yields (t : Template) (ops : List Operand) (w : Word) : Prop where
  typed : ops.map Operand.kind = t.signature
  accepted : t.encoding.fault ops = none
  word : t.encoding.word ops = w

def Check.without (slot : Nat) (size : ElementSize) : Check → Check
  | .size s allowed => if s = slot then .size s (allowed.filter (· ≠ size)) else .size s allowed
  | c => c

def Instruction.templates (i : Instruction) : List Template :=
  match i.layout with
  | .fixed e => [⟨i.name, i.signature, e⟩]
  | .bySize slot size own other =>
    [⟨i.name, i.signature, { own with checks := .size slot [size] :: own.checks }⟩,
      ⟨i.name, i.signature, { other with checks := other.checks.map (·.without slot size) }⟩]
  | .byAddress slot register immediate =>
    [⟨i.name ++ "Reg", i.signature.take slot ++ [.general, .general], register⟩,
      ⟨i.name ++ "Imm", i.signature.take slot ++ [.general, .int32], immediate⟩]

@[ext]
structure Spelling where
  name : String
  operands : List Operand
  deriving DecidableEq

/-- The call with an address taken apart into base and offset. The name tells which offset it is. -/
def Call.resolved (c : Call) : Spelling :=
  match c.operands.getLast? with
  | some (.address a) =>
    if a.mode = .scalarScalar then
      ⟨c.instruction.name ++ "Reg", c.operands.dropLast ++ [.general a.base, .general a.offset]⟩
    else
      ⟨c.instruction.name ++ "Imm", c.operands.dropLast ++ [.general a.base, .int32 a.immediate]⟩
  | _ => ⟨c.instruction.name, c.operands⟩

/-- An address stands in the last slot, exactly if the encoding depends on it. -/
def Layout.AddressLast (signature : List OperandKind) : Layout → Prop
  | .byAddress slot _ _ => signature.length = slot + 1 ∧ signature.getLast? = some .address
  | _ => signature.getLast? ≠ some .address

instance (signature : List OperandKind) : (l : Layout) → Decidable (l.AddressLast signature)
  | .fixed _ => inferInstanceAs (Decidable (¬_))
  | .bySize .. => inferInstanceAs (Decidable (¬_))
  | .byAddress .. => inferInstanceAs (Decidable (_ ∧ _))

theorem Catalogue.mem_of_family {f : Family} (hf : f ∈ Catalogue.families) {e : Entry}
    (he : e ∈ f.entries) : f.instruction e ∈ Catalogue.instructions :=
  List.mem_append_left _ (List.mem_flatMap.mpr ⟨f, hf, List.mem_map_of_mem he⟩)

theorem Catalogue.addressLast :
    ∀ i ∈ Catalogue.instructions, i.layout.AddressLast i.signature := by
  decide +kernel

namespace Encoding

theorem encode_eq_ok {e : Encoding} {ops : List Operand} {w : Word} :
    e.encode ops = .ok w ↔ e.fault ops = none ∧ e.word ops = w := by
  rw [encode]
  cases e.fault ops <;> simp

theorem fault_eq_none {e : Encoding} {ops : List Operand} :
    e.fault ops = none ↔ ∀ c ∈ e.checks, c.fault ops = none :=
  List.findSome?_eq_none_iff

end Encoding

private theorem fault_without {ops : List Operand} {slot : Nat} {size : ElementSize} {c : Check}
    (hs : elementAt ops slot ≠ size) (h : c.fault ops = none) :
    (c.without slot size).fault ops = none := by
  cases c with
  | size s allowed =>
    rw [Check.without]
    split
    · next hslot =>
      subst hslot
      simp only [Check.fault, Shift.sizeFault] at h ⊢
      simp_all
    · exact h
  | _ => exact h

theorem Call.resolved_of_ne {c : Call} (h : c.instruction.signature.getLast? ≠ some .address) :
    c.resolved = ⟨c.instruction.name, c.operands⟩ := by
  rw [Call.resolved]
  split
  · next a ha =>
    rw [← c.typed, List.getLast?_map, ha] at h
    exact absurd rfl h
  · rfl

theorem Call.layout_encode_of_encode {c : Call} {features : FeatureSet} {w : Word}
    (h : c.encode features = .ok w) : c.instruction.layout.encode c.operands = .ok w := by
  simp only [Call.encode, Instruction.encode, Instruction.word] at h
  split at h
  · cases hl : c.instruction.layout.encode c.operands with
    | ok v =>
      rw [hl] at h
      cases h
      rfl
    | error _ =>
      rw [hl] at h
      cases h
  · cases h

theorem resolved_of_address {c : Call} {slot : Nat}
    (hn : c.instruction.signature.length = slot + 1)
    (ha : c.instruction.signature.getLast? = some .address) :
    ∃ a, addressAt c.operands slot = a ∧ c.operands.dropLast = c.operands.take slot ∧
      c.operands.getLast? = some (.address a) := by
  have hlen : c.operands.length = slot + 1 := by rw [← hn, ← c.typed, List.length_map]
  rw [← c.typed, List.getLast?_map] at ha
  cases hl : c.operands.getLast? with
  | none => rw [hl] at ha; cases ha
  | some o =>
    rw [hl] at ha
    cases o with
    | address a =>
      have hget : operandAt c.operands slot = .address a := by
        rw [List.getLast?_eq_getElem?, hlen] at hl
        simpa [operandAt, List.getD_eq_getElem?_getD] using congrArg (·.getD (.flag false)) hl
      refine ⟨a, ?_, ?_, rfl⟩
      · rw [addressAt, hget]
      · rw [List.dropLast_eq_take, hlen]
        rfl
    | _ => simp [Operand.kind] at ha

/-- Every accepted call of the catalogue follows a template of its instruction. -/
theorem Call.exists_template {c : Call} {w : Word}
    (hc : c.instruction ∈ Catalogue.instructions) (h : c.encode .all = .ok w) :
    ∃ t ∈ c.instruction.templates, t.name = c.resolved.name ∧
      t.Yields c.resolved.operands w := by
  have ha := Catalogue.addressLast _ hc
  replace h := c.layout_encode_of_encode h
  rw [Instruction.templates]
  cases hl : c.instruction.layout with
  | fixed e =>
    rw [hl] at h ha
    rw [c.resolved_of_ne ha]
    obtain ⟨hf, hw⟩ := Encoding.encode_eq_ok.mp h
    exact ⟨_, List.mem_singleton_self _, rfl, c.typed, hf, hw⟩
  | bySize slot size own other =>
    rw [hl] at h ha
    rw [c.resolved_of_ne ha]
    simp only [Layout.encode] at h
    split at h
    · next hs =>
      obtain ⟨hf, hw⟩ := Encoding.encode_eq_ok.mp h
      refine ⟨_, List.mem_cons_self, rfl, c.typed, ?_, hw⟩
      rw [Encoding.fault_eq_none] at hf ⊢
      intro k hk
      rcases List.mem_cons.mp hk with rfl | hk
      · simp [Check.fault, Shift.sizeFault, hs]
      · exact hf k hk
    · next hs =>
      obtain ⟨hf, hw⟩ := Encoding.encode_eq_ok.mp h
      refine ⟨_, List.mem_cons_of_mem _ List.mem_cons_self, rfl, c.typed, ?_, hw⟩
      rw [Encoding.fault_eq_none] at hf ⊢
      intro k hk
      obtain ⟨k', hk', rfl⟩ := List.mem_map.mp hk
      exact fault_without hs (hf k' hk')
  | byAddress slot register immediate =>
    rw [hl] at h ha
    obtain ⟨a, hat, hdrop, hlast⟩ := resolved_of_address ha.1 ha.2
    have htyped : (c.operands.take slot).map Operand.kind = c.instruction.signature.take slot := by
      rw [← c.typed, List.map_take]
    simp only [Layout.encode, hat] at h
    simp only [Call.resolved, hlast, hdrop]
    split at h
    · next hm =>
      rw [if_pos hm]
      obtain ⟨hf, hw⟩ := Encoding.encode_eq_ok.mp h
      refine ⟨_, List.mem_cons_self, rfl, ?_, hf, hw⟩
      rw [List.map_append, htyped]
      rfl
    · next hm =>
      rw [if_neg hm]
      split at h
      · obtain ⟨hf, hw⟩ := Encoding.encode_eq_ok.mp h
        refine ⟨_, List.mem_cons_of_mem _ List.mem_cons_self, rfl, ?_, hf, hw⟩
        rw [List.map_append, htyped]
        rfl
      · split at h <;> cases h

def Layout.isDirect : Layout → Bool
  | .byAddress .. => false
  | _ => true

theorem Instruction.name_of_template {i : Instruction} (hd : i.layout.isDirect = true)
    {t : Template} (ht : t ∈ i.templates) : t.name = i.name := by
  rw [templates] at ht
  split at ht
  · rw [List.mem_singleton.mp ht]
  · simp only [List.mem_cons, List.not_mem_nil, or_false] at ht
    rcases ht with rfl | rfl <;> rfl
  · next hl =>
    rw [hl] at hd
    cases hd

/-- The encoding for the other element sizes checks the size that is singled out. -/
def Layout.ChecksSize : Layout → Prop
  | .bySize slot _ _ other => ∃ c ∈ other.checks, (match c with
    | .size s _ => s == slot
    | _ => false) = true
  | _ => True

instance : (l : Layout) → Decidable l.ChecksSize
  | .fixed _ => inferInstanceAs (Decidable True)
  | .bySize .. => inferInstanceAs (Decidable (∃ c ∈ _, _ = true))
  | .byAddress .. => inferInstanceAs (Decidable True)

theorem Catalogue.checksSize : ∀ i ∈ Catalogue.instructions, i.layout.ChecksSize := by
  decide +kernel

private theorem fault_of_without {ops : List Operand} {slot : Nat} {size : ElementSize}
    {c : Check} (h : (c.without slot size).fault ops = none) : c.fault ops = none := by
  cases c with
  | size s allowed =>
    rw [Check.without] at h
    split at h
    · simp only [Check.fault, Shift.sizeFault] at h ⊢
      simp_all
    · exact h
  | _ => exact h

private theorem element_ne_of_without {ops : List Operand} {slot : Nat} {size : ElementSize}
    {allowed : ElementSizes} (h : ((Check.size slot allowed).without slot size).fault ops = none) :
    elementAt ops slot ≠ size := by
  simp only [Check.without, if_pos, Check.fault, Shift.sizeFault] at h
  split at h
  · simp_all
  · cases h

theorem Instruction.encode_of_template {i : Instruction} (hi : i ∈ Catalogue.instructions)
    (hd : i.layout.isDirect = true) {t : Template} (ht : t ∈ i.templates) {ops : List Operand}
    (hf : t.encoding.fault ops = none) : i.layout.encode ops = .ok (t.encoding.word ops) := by
  have hs := Catalogue.checksSize i hi
  rw [templates] at ht
  cases hl : i.layout with
  | fixed e =>
    rw [hl] at ht
    cases List.mem_singleton.mp ht
    exact Encoding.encode_eq_ok.mpr ⟨hf, rfl⟩
  | bySize slot size own other =>
    rw [hl] at ht hs
    rw [Encoding.fault_eq_none] at hf
    rw [Layout.encode]
    rcases List.mem_cons.mp ht with rfl | ht
    · have hsize := hf _ List.mem_cons_self
      simp only [Check.fault, Shift.sizeFault] at hsize
      split at hsize
      · next hin =>
        rw [if_pos (List.mem_singleton.mp hin)]
        exact Encoding.encode_eq_ok.mpr
          ⟨Encoding.fault_eq_none.mpr fun c hc => hf c (List.mem_cons_of_mem _ hc), rfl⟩
      · cases hsize
    · cases List.mem_singleton.mp ht
      have hpass (c : Check) (hc : c ∈ other.checks) : (c.without slot size).fault ops = none :=
        hf _ (List.mem_map_of_mem hc)
      obtain ⟨c, hc, hslot⟩ := hs
      split at hslot
      · next s allowed =>
        cases beq_iff_eq.mp hslot
        rw [if_neg (element_ne_of_without (hpass _ hc))]
        exact Encoding.encode_eq_ok.mpr
          ⟨Encoding.fault_eq_none.mpr fun c hc => fault_of_without (hpass c hc), rfl⟩
      · cases hslot
  | byAddress slot register immediate =>
    rw [hl] at hd
    cases hd

end ScalableVector
