import ScalableVector.Proofs.Parts

/-!
# Independence of operands

The part of a word that stands for some operands depends on these operands only: any two accepted
calls of an instruction that agree on the operands agree on the part. This holds also where the
other operands select another encoding.
-/

namespace ScalableVector

theorem ShiftAmount.value_congr {amount : ShiftAmount} {element : Nat} {a b : List Operand}
    (h : ∀ s ∈ element :: amount.slots, operandAt a s = operandAt b s) :
    amount.value a element = amount.value b element := by
  cases amount with
  | operand s => rw [value, value, valueAt, valueAt, h s (by simp [slots])]
  | width => rw [value, value, elementAt, elementAt, h element List.mem_cons_self]

theorem Code.value_congr {c : Code} {a b : List Operand}
    (h : ∀ s ∈ c.slots, operandAt a s = operandAt b s) : c.value a = c.value b := by
  have hv {s : Nat} (hs : s ∈ c.slots) : valueAt a s = valueAt b s := by
    rw [valueAt, valueAt, h s hs]
  have he {s : Nat} (hs : s ∈ c.slots) : elementAt a s = elementAt b s := by
    rw [elementAt, elementAt, h s hs]
  cases c with
  | operand s | quotient s divisor =>
    simp only [value, hv (List.mem_singleton_self s)]
  | is64 s => simp only [value, generalAt, h s (List.mem_singleton_self s)]
  | float s => simp only [value, floatAt, h s (List.mem_singleton_self s)]
  | select slots table =>
    have hs : slots.map (elementAt a) = slots.map (elementAt b) :=
      List.map_congr_left fun s hs => he hs
    simp only [value, hs]
  | shift part direction s amount =>
    simp only [value, he (List.mem_cons_self), ShiftAmount.value_congr h]
  | longShift s t | lane s t =>
    simp only [value, he (List.mem_cons_self), hv (List.mem_cons_of_mem _ List.mem_cons_self)]

theorem Field.contribution_congr {f : Field} {a b : List Operand}
    (h : ∀ s ∈ f.code.slots, operandAt a s = operandAt b s) :
    f.contribution a = f.contribution b := by
  rw [contribution, contribution, Code.value_congr h]

namespace Layout

/-- The groups that do not select the encoding have the same fields in all encodings. -/
def Steady (signature : List OperandKind) (l : Layout) : Prop :=
  ∀ g ∈ l.groups signature.length, l.isSelecting g = false →
    ∀ e ∈ l.encodings, ∀ e' ∈ l.encodings, l.fieldsOf e g = l.fieldsOf e' g

instance (signature : List OperandKind) (l : Layout) : Decidable (l.Steady signature) :=
  inferInstanceAs (Decidable (∀ g ∈ _, _ = false → ∀ e ∈ _, ∀ e' ∈ _, _))

variable {l : Layout} {signature : List OperandKind} {a b read read' : List Operand}
  {e e' : Encoding} {g : List Nat}

private theorem operandAt_withOffset {ops : List Operand} {slot : Nat} (h : slot ≤ ops.length)
    (base : GeneralRegister) (offset : Operand) (s : Nat) :
    operandAt (withOffset ops slot base offset) s =
      if s < slot then operandAt ops s else operandAt [.general base, offset] (s - slot) := by
  have hlen : (ops.take slot).length = slot := by rw [List.length_take, Nat.min_eq_left h]
  rw [withOffset, operandAt, List.getD_eq_getElem?_getD]
  split
  · next hs =>
    rw [List.getElem?_append_left (by omega), List.getElem?_take_of_lt hs, operandAt,
      List.getD_eq_getElem?_getD]
  · next hs =>
    rw [List.getElem?_append_right (by omega), hlen, operandAt, List.getD_eq_getElem?_getD]

private theorem operandAt_read (ha : l.Reads signature a e read) (hb : l.Reads signature b e' read')
    (hl : l.AddressLast signature) (hg : ∀ s ∈ g, operandAt a s = operandAt b s) {s : Nat}
    (hs : l.owner s ∈ g) : operandAt read s = operandAt read' s := by
  cases l with
  | fixed e =>
    cases ha.chosen
    cases hb.chosen
    exact hg s hs
  | bySize slot size own other =>
    cases ha.chosen
    cases hb.chosen
    exact hg s hs
  | byAddress slot register immediate =>
    have hla : slot ≤ a.length := by
      rw [← List.length_map Operand.kind, ha.typed, hl.1]
      omega
    have hlb : slot ≤ b.length := by
      rw [← List.length_map Operand.kind, hb.typed, hl.1]
      omega
    obtain ⟨⟨e, offset⟩, hma, hra⟩ := Option.map_eq_some_iff.mp ha.chosen
    obtain ⟨⟨e', offset'⟩, hmb, hrb⟩ := Option.map_eq_some_iff.mp hb.chosen
    cases hra
    cases hrb
    rw [operandAt_withOffset hla, operandAt_withOffset hlb]
    rw [owner] at hs
    split
    · next hlt =>
      rw [Nat.min_eq_left (Nat.le_of_lt hlt)] at hs
      exact hg s hs
    · next hge =>
      rw [Nat.min_eq_right (Nat.le_of_not_lt hge)] at hs
      have haddr : addressAt a slot = addressAt b slot := by rw [addressAt, addressAt, hg slot hs]
      rw [haddr, hmb] at hma
      cases hma
      rw [haddr]

/-- A group that selects the encoding determines it. -/
private theorem encoding_eq (ha : l.Reads signature a e read) (hb : l.Reads signature b e' read')
    (hg : ∀ s ∈ g, operandAt a s = operandAt b s) (hs : l.isSelecting g = true) : e = e' := by
  cases l with
  | fixed e => cases hs
  | bySize slot size own other =>
    have hslot := hg slot (List.contains_iff_mem.mp hs)
    have hsize : elementAt a slot = elementAt b slot := by rw [elementAt, elementAt, hslot]
    cases ha.chosen
    cases hb.chosen
    rw [hsize]
  | byAddress slot register immediate =>
    have hslot := hg slot (List.contains_iff_mem.mp hs)
    have haddr : addressAt a slot = addressAt b slot := by rw [addressAt, addressAt, hslot]
    obtain ⟨⟨e, offset⟩, hma, hra⟩ := Option.map_eq_some_iff.mp ha.chosen
    obtain ⟨⟨e', offset'⟩, hmb, hrb⟩ := Option.map_eq_some_iff.mp hb.chosen
    cases hra
    cases hrb
    rw [haddr, hmb] at hma
    cases hma
    rfl

private def fieldBits (read : List Operand) (fs : List Field) (start : Word) : Word :=
  fs.foldr (fun f w => f.contribution read ||| w) start

private theorem part_eq_fieldBits (h : l.chosen a = some (e, read)) :
    l.part a g = fieldBits read (l.fieldsOf e g) (l.selection e g) := by
  simp only [part, h, fieldBits]

private theorem owner_mem_of_belongs {f : Field} (h : l.belongs g f = true) {s : Nat}
    (hs : s ∈ f.code.slots) : l.owner s ∈ g := by
  rw [belongs, List.all_eq_true] at h
  exact List.contains_iff_mem.mp (h _ (List.mem_map_of_mem hs))

private theorem fieldBits_eq (ha : l.Reads signature a e read) (hb : l.Reads signature b e' read')
    (hl : l.AddressLast signature) (hg : ∀ s ∈ g, operandAt a s = operandAt b s)
    {e'' : Encoding} (start : Word) :
    fieldBits read (l.fieldsOf e'' g) start = fieldBits read' (l.fieldsOf e'' g) start := by
  apply List.foldr_ext
  intro f hf w
  rw [Field.contribution_congr]
  intro s hs
  exact operandAt_read ha hb hl hg (owner_mem_of_belongs (List.mem_filter.mp hf).2 hs)

/-- The part of a group depends on the operands of the group only. -/
theorem Steady.part_eq (h : l.Steady signature) (hl : l.AddressLast signature)
    (ha : l.Reads signature a e read) (hb : l.Reads signature b e' read')
    (hmem : g ∈ l.groups signature.length) (hg : ∀ s ∈ g, operandAt a s = operandAt b s) :
    l.part a g = l.part b g := by
  rw [part_eq_fieldBits ha.chosen, part_eq_fieldBits hb.chosen]
  cases hs : l.isSelecting g with
  | true =>
    rw [encoding_eq ha hb hg hs]
    exact fieldBits_eq ha hb hl hg _
  | false =>
    have hzero (e : Encoding) : l.selection e g = 0 := by rw [selection, hs, if_neg (by decide)]
    rw [hzero, hzero, h g hmem hs e ha.mem_encodings e' hb.mem_encodings]
    exact fieldBits_eq ha hb hl hg 0

end Layout

namespace Catalogue

private theorem others_steady :
    ∀ i ∈ IndexedProduct.instruction :: Transfer.accesses.flatMap Transfer.Access.instructions,
      i.layout.Steady i.signature := by
  decide +kernel

theorem steady {i : Instruction} (hi : i ∈ instructions) : i.layout.Steady i.signature := by
  rcases List.mem_append.mp hi with hi | hi
  · obtain ⟨f, -, he⟩ := List.mem_flatMap.mp hi
    obtain ⟨entry, -, rfl⟩ := List.mem_map.mp he
    intro g _ _ e he e' he'
    rw [List.mem_singleton.mp he, List.mem_singleton.mp he']
  · exact others_steady i hi

end Catalogue

namespace Call

def part (c : Call) (g : List Nat) : Word := c.instruction.layout.part c.operands g

private theorem place_of_register {c : Call} {t : Template} {w : Word}
    (hc : c.instruction ∈ Catalogue.instructions) (ht : t ∈ c.instruction.templates)
    (hy : t.Yields c.resolved.operands w) {slot : Nat} {o : Operand}
    (ho : c.resolved.operands[slot]? = some o) (hreg : o.kind.isRegister = true) :
    ∃ p : Place, o.value = (p.read w : Int) ∧
      (p ∈ documentedPlaces t.name slot ∧ p.width = t.registerWidth slot ∨
        c.instruction = IndexedProduct.instruction ∧ slot = 3 ∧
          p = ⟨16, if elementAt c.operands 0 = .half then 3 else 4, 0⟩) ∧
      (p.step = 0 ∨
        ∃ slots, .sequential slots ∈ t.encoding.checks ∧ slots[p.step]? = some slot) := by
  have hk : t.signature[slot]? = some o.kind := by
    rw [← hy.typed, List.getElem?_map, ho]
    rfl
  have hat : operandAt c.resolved.operands slot = o := by
    rw [operandAt, List.getD_eq_getElem?_getD, ho]
    rfl
  obtain ⟨p, hp, hplace⟩ := Catalogue.exists_place hc ht hy.accepted hk hreg
  have hvalue := hy.value_of_hasPlace (Catalogue.separate _ hc t ht) hp
  rw [valueAt, hat] at hvalue
  refine ⟨p, hvalue, ?_, Template.step_of_hasPlace hp⟩
  rcases hplace with hdocumented | ⟨hi, hslot, hplace⟩
  · exact .inl hdocumented
  -- this instruction is its own resolved form, so its element size is the one that was written
  · rw [c.resolved_of_ne (by rw [hi]; decide)] at hplace
    exact .inr ⟨hi, hslot, hplace⟩

/-- The word of an accepted call is the union of the fixed bits of its instruction and a part for
each operand, or for an element size with the number or the size it is encoded with. All of these
are disjoint, and a part is the same in all accepted calls that agree on its operands. The number of
every register stands at its documented place of the word, unless it follows another register. -/
theorem word_eq_disjoint_parts {c : Call} {w : Word}
    (hc : c.instruction ∈ Catalogue.instructions) (hw : c.Accepted w) :
    let groups := c.instruction.layout.groups c.instruction.signature.length
    let opcode := c.instruction.layout.opcode
    (groups.flatten.Perm (List.range c.instruction.signature.length) ∧
      ∀ g ∈ groups, Layout.isGroup c.instruction.signature g = true) ∧
    w = groups.foldr (fun g v => c.part g ||| v) opcode ∧
    (opcode :: groups.map c.part).Pairwise (· &&& · = 0) ∧
    (∀ (d : Call) (v : Word), d.instruction = c.instruction → d.Accepted v → ∀ g ∈ groups,
      (∀ s ∈ g, operandAt c.operands s = operandAt d.operands s) → c.part g = d.part g) ∧
    ∃ t ∈ c.instruction.templates, t.name = c.resolved.name ∧ t.Yields c.resolved.operands w ∧
      ∀ slot o, c.resolved.operands[slot]? = some o → o.kind.isRegister = true →
        ∃ p : Place, o.value = (p.read w : Int) ∧
          (p ∈ documentedPlaces t.name slot ∧ p.width = t.registerWidth slot ∨
            c.instruction = IndexedProduct.instruction ∧ slot = 3 ∧
              p = ⟨16, if elementAt c.operands 0 = .half then 3 else 4, 0⟩) ∧
          (p.step = 0 ∨
            ∃ slots, .sequential slots ∈ t.encoding.checks ∧ slots[p.step]? = some slot) := by
  have hdiv := Catalogue.divides hc
  have hencode := layout_encode_of_encode (accepted_iff.mp hw)
  obtain ⟨e, read, hreads, hword⟩ := Layout.exists_reads c.typed hencode
  refine ⟨⟨hdiv.partition, hdiv.isGroup⟩, ?_, hdiv.parts_disjoint hreads, ?_, ?_⟩
  · rw [← hword]
    exact hdiv.word_eq_parts hreads
  · intro d v hd hv g hg hagree
    have hencode' := layout_encode_of_encode (accepted_iff.mp hv)
    obtain ⟨e', read', hreads', -⟩ := Layout.exists_reads d.typed hencode'
    rw [hd] at hreads'
    rw [part, part, hd]
    exact (Catalogue.steady hc).part_eq (Catalogue.addressLast _ hc) hreads hreads' hg hagree
  · obtain ⟨t, ht, hname, hy⟩ := c.exists_template hc (accepted_iff.mp hw)
    exact ⟨t, ht, hname, hy, fun slot o ho hreg => place_of_register hc ht hy ho hreg⟩

private def indexedProduct : Call :=
  ⟨IndexedProduct.instruction, [.element .half, .vector ⟨0⟩, .vector ⟨1⟩, .vector ⟨2⟩, .uint32 1,
    .rotation ⟨0⟩], rfl⟩

theorem indexedProduct_disjoint_parts :
    indexedProduct.Accepted 0x64aa1020 ∧
      0x64aa1020 = [[0, 4], [1], [2], [3], [5]].foldr (fun g v => indexedProduct.part g ||| v)
        0x64a01000 ∧
      (0x64a01000 :: [[0, 4], [1], [2], [3], [5]].map indexedProduct.part).Pairwise
        (· &&& · = 0) := by
  have hw : indexedProduct.Accepted 0x64aa1020 := by decide +kernel
  have hc : indexedProduct.instruction ∈ Catalogue.instructions :=
    List.mem_append_right _ List.mem_cons_self
  have h := word_eq_disjoint_parts hc hw
  have hgroups : indexedProduct.instruction.layout.groups
      indexedProduct.instruction.signature.length = [[0, 4], [1], [2], [3], [5]] := by
    decide +kernel
  have hopcode : indexedProduct.instruction.layout.opcode = 0x64a01000 := by decide +kernel
  rw [hgroups, hopcode] at h
  exact ⟨hw, h.2.1, h.2.2.1⟩

/-- The five bits from bit 16 on hold the number of the second source for most instructions, but
here they hold the index as well. -/
theorem indexedProduct_source_shares_bits :
    indexedProduct.Accepted 0x64aa1020 ∧ operandAt indexedProduct.operands 3 = .vector ⟨2⟩ ∧
      (Place.mk 16 5 0).bits 0x64aa1020 ≠ 2 := by
  decide +kernel

end Call

end ScalableVector
