import ScalableVector.Proofs.Independence
import ScalableVector.Proofs.Requirement

/-!
# What an encoding looks at

A check looks at the operands in its slots only. So when a single operand of an accepted call is
exchanged, the call stays accepted exactly if the checks that look at this operand still hold.
-/

namespace ScalableVector

/-- The slots that a check looks at. -/
def Check.slots : Check → List Nat
  | .size slot _ | .register slot | .governing slot | .wide slot | .offset slot
  | .bounds _ slot _ _ | .multiple _ slot _ | .rotation slot | .float slot => [slot]
  | .sameWidth a b | .elementRegister a b | .aliased _ a _ b | .longShift a b
  | .unshiftedByte a b | .convertible _ a b _ | .lane a b => [a, b]
  | .shift _ a amount => a :: amount.slots
  | .sequential slots => slots

theorem Check.fault_congr {c : Check} {a b : List Operand}
    (h : ∀ s ∈ c.slots, operandAt a s = operandAt b s) : c.fault a = c.fault b := by
  have hv {s : Nat} (hs : s ∈ c.slots) : valueAt a s = valueAt b s := by
    rw [valueAt, valueAt, h s hs]
  have he {s : Nat} (hs : s ∈ c.slots) : elementAt a s = elementAt b s := by
    rw [elementAt, elementAt, h s hs]
  have hg {s : Nat} (hs : s ∈ c.slots) : generalAt a s = generalAt b s := by
    rw [generalAt, generalAt, h s hs]
  cases c with
  | size s _ | register s | governing s | wide s | offset s | bounds _ s _ _ | multiple _ s _ =>
    have hs := List.mem_singleton_self s
    simp only [fault, registerFault, wideFault, he hs, hv hs, hg hs, h s hs]
  | rotation s =>
    have hs : rotationAt a s = rotationAt b s := by
      rw [rotationAt, rotationAt, h s (List.mem_singleton_self s)]
    simp only [fault, hs]
  | float s => simp only [fault, floatAt, h s (List.mem_singleton_self s)]
  | shift _ s amount =>
    simp only [fault, he List.mem_cons_self, ShiftAmount.value_congr h]
  | sameWidth s t | elementRegister s t | aliased _ s _ t | longShift s t
  | unshiftedByte s t | convertible _ s t _ | lane s t =>
    have hs : s ∈ [s, t] := List.mem_cons_self
    have ht : t ∈ [s, t] := List.mem_cons_of_mem _ List.mem_cons_self
    simp only [fault, registerFault, he hs, he ht, hv ht, hg hs, hg ht, h s hs, h t ht]
  | sequential slots =>
    have hslots : slots.map (vectorAt a) = slots.map (vectorAt b) := by
      apply List.map_congr_left
      intro s hs
      rw [vectorAt, vectorAt, h s hs]
    simp only [fault, hslots]

theorem Check.registerFault_of_vector {ops : List Operand} {slot : Nat} {z : VectorRegister}
    (ho : operandAt ops slot = .vector z) (hz : z.number ≤ 31) :
    Check.registerFault ops slot = none := by
  have hin : (Operand.vector z).inFile = true := by
    have hle : z.number.toNat ≤ 31 := UInt8.le_iff_toNat_le.mp hz
    exact decide_eq_true (UInt8.lt_iff_toNat_lt.mpr (Nat.lt_succ_of_le hle))
  rw [Check.registerFault, ho, if_pos hin]

def AgreeExcept (slot : Nat) (a b : List Operand) : Prop :=
  ∀ s, s ≠ slot → operandAt a s = operandAt b s

namespace AgreeExcept

variable {slot : Nat} {a b : List Operand}

theorem refl (slot : Nat) (a : List Operand) : AgreeExcept slot a a := fun _ _ => rfl

theorem operandAt_of_notMem (h : AgreeExcept slot a b) {slots : List Nat} (hn : slot ∉ slots) :
    ∀ s ∈ slots, operandAt a s = operandAt b s := by
  intro s hs
  apply h
  rintro rfl
  exact hn hs

/-- After an accepted list of operands only the checks of the exchanged one are left to look at. -/
theorem fault_eq_none_iff {e : Encoding} (h : AgreeExcept slot a b) (ha : e.fault a = none) :
    e.fault b = none ↔ ∀ c ∈ e.checks, slot ∈ c.slots → c.fault b = none := by
  rw [Encoding.fault_eq_none] at ha ⊢
  constructor
  · intro hb c hc _
    exact hb c hc
  · intro hb c hc
    by_cases hs : slot ∈ c.slots
    · exact hb c hc hs
    · rw [← Check.fault_congr (h.operandAt_of_notMem hs)]
      exact ha c hc

theorem fault_eq {e : Encoding} (h : AgreeExcept slot a b) (hs : ∀ c ∈ e.checks, slot ∉ c.slots) :
    e.fault a = e.fault b := by
  rw [Encoding.fault, Encoding.fault]
  generalize e.checks = cs at hs
  induction cs with
  | nil => rfl
  | cons c cs ih =>
    have hc := Check.fault_congr (h.operandAt_of_notMem (hs c List.mem_cons_self))
    have htail := ih fun c' hc' => hs c' (List.mem_cons_of_mem _ hc')
    rw [List.findSome?_cons, List.findSome?_cons, hc, htail]

theorem chosen {l : Layout} (h : AgreeExcept slot a b) (hd : l.isDirect = true)
    (hs : l.selector ≠ some slot) :
    ∃ e ∈ l.encodings, l.chosen a = some (e, a) ∧ l.chosen b = some (e, b) := by
  cases l with
  | fixed e => exact ⟨e, List.mem_singleton_self e, rfl, rfl⟩
  | bySize s size own other =>
    have hsize : elementAt a s = elementAt b s := by
      rw [elementAt, elementAt, h s fun heq => hs (congrArg some heq)]
    simp only [Layout.chosen, Layout.encodings, hsize]
    by_cases hb : elementAt b s = size
    · exact ⟨own, by simp, by rw [if_pos hb], by rw [if_pos hb]⟩
    · exact ⟨other, by simp, by rw [if_neg hb], by rw [if_neg hb]⟩
  | byAddress => cases hd

end AgreeExcept

theorem Encoding.word_congr {e : Encoding} {a b : List Operand}
    (h : ∀ f ∈ e.fields, f.contribution a = f.contribution b) : e.word a = e.word b := by
  apply List.foldr_ext
  intro f hf w
  rw [h f hf]

theorem Layout.encode_of_chosen {l : Layout} {ops read : List Operand} {e : Encoding}
    (h : l.chosen ops = some (e, read)) : l.encode ops = e.encode read := by
  cases l with
  | fixed e' =>
    simp only [Layout.chosen, Option.some.injEq, Prod.mk.injEq] at h
    rw [Layout.encode, h.1, h.2]
  | bySize slot size own other =>
    simp only [Layout.chosen, Option.some.injEq, Prod.mk.injEq] at h
    rw [Layout.encode, ← h.1, ← h.2]
    split <;> rfl
  | byAddress slot register immediate =>
    simp only [Layout.chosen, Layout.byMode] at h
    simp only [Layout.encode]
    split at h
    · next hm =>
      simp only [Option.map_some, Option.some.injEq, Prod.mk.injEq] at h
      rw [if_pos hm, ← h.1, ← h.2]
    · next hm =>
      split at h
      · next hi =>
        simp only [Option.map_some, Option.some.injEq, Prod.mk.injEq] at h
        rw [if_neg hm, if_pos hi, ← h.1, ← h.2]
      · simp only [Option.map_none, reduceCtorEq] at h

/-- With all extensions the operands alone decide whether a call is accepted. -/
theorem Call.accepted_iff_layout {c : Call} (hc : c.instruction ∈ Catalogue.instructions)
    {w : Word} : c.Accepted w ↔ c.instruction.layout.encode c.operands = .ok w := by
  rw [Call.accepted_iff]
  constructor
  · exact c.layout_encode_of_encode
  · intro h
    have hall := Catalogue.all_includes_requirement hc
    simp only [Call.encode, Instruction.encode, Instruction.word, if_pos hall, h]
    rfl

theorem Call.accepted_iff_chosen {c : Call} (hc : c.instruction ∈ Catalogue.instructions)
    {e : Encoding} {read : List Operand}
    (h : c.instruction.layout.chosen c.operands = some (e, read)) {w : Word} :
    c.Accepted w ↔ e.fault read = none ∧ e.word read = w := by
  rw [Call.accepted_iff_layout hc, Layout.encode_of_chosen h, Encoding.encode_eq_ok]

theorem Call.words_iff_of_family {f : Family} (hf : f ∈ Catalogue.families) {entry : Entry}
    (he : entry ∈ f.entries) {c : Call} (hc : c.instruction = f.instruction entry)
    {features : FeatureSet} (hr : features.includes f.requirement = true) {w : Word} :
    c.words features = [w] ↔
      (f.encoding entry).fault c.operands = none ∧ (f.encoding entry).word c.operands = w := by
  have hmem : c.instruction ∈ Catalogue.instructions := by
    rw [hc]
    exact Catalogue.mem_of_family hf he
  have hincludes : features.includes c.instruction.requirement = true := by rwa [hc]
  rw [Call.words_eq_of_mem hmem, if_pos hincludes, ← Encoding.encode_eq_ok]
  have haccepted := Call.accepted_iff_layout hmem (w := w)
  rw [hc] at haccepted
  exact haccepted

theorem Call.exists_word_iff_of_family {f : Family} (hf : f ∈ Catalogue.families) {entry : Entry}
    (he : entry ∈ f.entries) {c : Call} (hc : c.instruction = f.instruction entry)
    {features : FeatureSet} (hr : features.includes f.requirement = true) :
    (∃ w, c.words features = [w]) ↔ (f.encoding entry).fault c.operands = none := by
  simp only [Call.words_iff_of_family hf he hc hr, exists_and_left, exists_eq', and_true]

private theorem Catalogue.others_separate :
    ∀ i ∈ IndexedProduct.instruction :: Transfer.accesses.flatMap Transfer.Access.instructions,
      i.layout.isDirect = true → ∀ e ∈ i.layout.encodings, (e.trimmed i.signature).Separate := by
  decide +kernel

theorem Catalogue.separate_of_direct {i : Instruction} (hi : i ∈ Catalogue.instructions)
    (hd : i.layout.isDirect = true) {e : Encoding} (he : e ∈ i.layout.encodings) :
    (e.trimmed i.signature).Separate := by
  rcases List.mem_append.mp hi with hfamily | hother
  · obtain ⟨f, -, hentry⟩ := List.mem_flatMap.mp hfamily
    obtain ⟨entry, -, rfl⟩ := List.mem_map.mp hentry
    cases List.mem_singleton.mp he
    exact Catalogue.separate _ hi _ List.mem_cons_self
  · exact Catalogue.others_separate i hother hd e he

theorem Catalogue.separate_of_family {f : Family} (hf : f ∈ Catalogue.families) {entry : Entry}
    (he : entry ∈ f.entries) : ((f.encoding entry).trimmed f.signature).Separate :=
  Catalogue.separate_of_direct (Catalogue.mem_of_family hf he) rfl (List.mem_singleton_self _)

end ScalableVector
