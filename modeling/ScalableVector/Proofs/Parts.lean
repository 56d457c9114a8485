import ScalableVector.Proofs.Place
import ScalableVector.Proofs.Separation

/-!
# Parts of a word

The word of an accepted call is the bits that its instruction fixes together with a part for every
operand. A few operands have a part in common. The parts have no bit in common with one another or
with the fixed bits, and a part depends on its operands only.
-/

namespace ScalableVector

deriving instance DecidableEq for Field

def Code.slots : Code → List Nat
  | .operand slot | .quotient slot _ | .is64 slot | .float slot => [slot]
  | .select slots _ => slots
  | .shift _ _ element amount => element :: amount.slots
  | .longShift element number | .lane element number => [element, number]

namespace Layout

def encodings : Layout → List Encoding
  | .fixed e => [e]
  | .bySize _ _ own other => [own, other]
  | .byAddress _ register immediate => [register, immediate]

def forms (signature : List OperandKind) : Layout → List (Encoding × List OperandKind)
  | .fixed e => [(e, signature)]
  | .bySize _ _ own other => [(own, signature), (other, signature)]
  | .byAddress slot register immediate =>
    [(register, signature.take slot ++ [.general, .general]),
      (immediate, signature.take slot ++ [.general, .int32])]

/-- The bits that are set in all words of the layout. -/
def opcode (l : Layout) : Word := l.encodings.foldr (fun e w => e.opcode &&& w) (BitVec.allOnes 32)

def byMode (register immediate : Encoding) (a : Address) : Option (Encoding × Operand) :=
  if a.mode = .scalarScalar then some (register, .general a.offset)
  else if a.mode = .scalarImmediate then some (immediate, .int32 a.immediate)
  else none

/-- The encoding that the operands select, and the operands it reads. -/
def chosen (ops : List Operand) : Layout → Option (Encoding × List Operand)
  | .fixed e => some (e, ops)
  | .bySize slot size own other => some (if elementAt ops slot = size then own else other, ops)
  | .byAddress slot register immediate =>
    (byMode register immediate (addressAt ops slot)).map fun (e, offset) =>
      (e, withOffset ops slot (addressAt ops slot).base offset)

def selector : Layout → Option Nat
  | .fixed _ => none
  | .bySize slot .. | .byAddress slot .. => some slot

/-- The slot of the operand that an encoding reads in the given slot. Base and offset belong to the
address. -/
def owner : Layout → Nat → Nat
  | .byAddress slot .., s => min s slot
  | _, s => s

def fieldSlots (l : Layout) (f : Field) : List Nat := f.code.slots.map l.owner

/-- The slots of operands whose field stands elsewhere in the other encoding. -/
def movedSlots (own other : Encoding) : List Nat :=
  (own.fields.zip other.fields).flatMap fun (f, g) =>
    if f.pieces.map Piece.lsb = g.pieces.map Piece.lsb then [] else f.code.slots

/-- The operands that have a part in common, by their slots. -/
def joint : Layout → List (List Nat)
  | .fixed e => ((e.fields.map (·.code.slots)).filter fun slots => 1 < slots.length).eraseDups
  | .bySize slot _ own other => [slot :: movedSlots own other]
  | .byAddress .. => []

def groups (l : Layout) (count : Nat) : List (List Nat) :=
  l.joint ++ ((List.range count).filter (· ∉ l.joint.flatten)).map ([·])

def belongs (l : Layout) (g : List Nat) (f : Field) : Bool := (l.fieldSlots f).all (g.contains ·)

def fieldsOf (l : Layout) (e : Encoding) (g : List Nat) : List Field :=
  e.fields.filter (l.belongs g)

def isSelecting (l : Layout) (g : List Nat) : Bool := l.selector.any (g.contains ·)

/-- The opcode bits by which a group selects the encoding. -/
def selection (l : Layout) (e : Encoding) (g : List Nat) : Word :=
  if l.isSelecting g then e.opcode &&& ~~~l.opcode else 0

/-- The bits that stand for the operands of a group. -/
def part (l : Layout) (ops : List Operand) (g : List Nat) : Word :=
  match l.chosen ops with
  | none => 0
  | some (e, read) =>
    (l.fieldsOf e g).foldr (fun f w => f.contribution read ||| w) (l.selection e g)

def partMask (l : Layout) (e : Encoding) (g : List Nat) : Word :=
  (l.fieldsOf e g).foldr (fun f w => f.mask ||| w) (l.selection e g)

/-- The group is a single operand, or an element size together with a number or another size. -/
def isGroup (signature : List OperandKind) : List Nat → Bool
  | [_] => true
  | [s, t] => signature[s]? == some .element &&
      (signature[t]? == some .uint32 || signature[t]? == some .element)
  | _ => false

/-- What makes the parts of a layout disjoint and complete. -/
structure Divides (l : Layout) (signature : List OperandKind) : Prop where
  partition : (l.groups signature.length).flatten.Perm (List.range signature.length)
  isGroup : ∀ g ∈ l.groups signature.length, isGroup signature g = true
  selects : ∀ s ∈ l.selector, ∃ g ∈ l.groups signature.length, s ∈ g
  covers : ∀ e ∈ l.encodings, ∀ f ∈ e.fields,
    ∃ g ∈ l.groups signature.length, l.belongs g f = true
  apart : ∀ q ∈ l.forms signature,
    (l.opcode :: (l.groups signature.length).map (l.partMask (q.1.trimmed q.2))).Pairwise
      (· &&& · = 0)

instance (l : Layout) (signature : List OperandKind) : Decidable (l.Divides signature) :=
  decidable_of_iff ((l.groups signature.length).flatten.Perm (List.range signature.length) ∧
      (∀ g ∈ l.groups signature.length, Layout.isGroup signature g = true) ∧
      (∀ s ∈ l.selector, ∃ g ∈ l.groups signature.length, s ∈ g) ∧
      (∀ e ∈ l.encodings, ∀ f ∈ e.fields,
        ∃ g ∈ l.groups signature.length, l.belongs g f = true) ∧
      ∀ q ∈ l.forms signature,
        (l.opcode :: (l.groups signature.length).map (l.partMask (q.1.trimmed q.2))).Pairwise
          (· &&& · = 0))
    ⟨fun h => ⟨h.1, h.2.1, h.2.2.1, h.2.2.2.1, h.2.2.2.2⟩, fun h => ⟨h.1, h.2, h.3, h.4, h.5⟩⟩

end Layout

private theorem and_eq_zero_iff {a b : Word} :
    a &&& b = 0 ↔ ∀ k, a.getLsbD k = true → ¬b.getLsbD k = true := by
  constructor
  · intro h k ha hb
    have hk := congrArg (fun w : Word => w.getLsbD k) h
    simp [ha, hb] at hk
  · intro h
    apply BitVec.eq_of_getLsbD_eq
    intro k _
    have hk := h k
    cases ha : a.getLsbD k <;> cases hb : b.getLsbD k <;> simp_all

namespace Field

private theorem getLsbD_contribution {f : Field} {ops : List Operand} {k : Nat} :
    (f.contribution ops).getLsbD k = true ↔
      ∃ p ∈ f.pieces, (p.place (f.code.value ops)).getLsbD k = true := by
  rw [contribution_eq_placed]
  exact getLsbD_foldr_or_zero (fun p : Piece => p.place (f.code.value ops)) f.pieces k

private theorem getLsbD_mask {f : Field} {k : Nat} :
    f.mask.getLsbD k = true ↔ ∃ p ∈ f.pieces, p.mask.getLsbD k = true :=
  getLsbD_foldr_or_zero Piece.mask f.pieces k

private theorem mask_of_contribution {f : Field} {ops : List Operand} {k : Nat}
    (h : (f.contribution ops).getLsbD k = true) : f.mask.getLsbD k = true := by
  obtain ⟨p, hp, hk⟩ := getLsbD_contribution.mp h
  rw [← p.place_and_mask, BitVec.getLsbD_and, Bool.and_eq_true] at hk
  exact getLsbD_mask.mpr ⟨p, hp, hk.2⟩

end Field

namespace Layout

variable {l : Layout} {ops read : List Operand} {e : Encoding} {g : List Nat}
  {signature : List OperandKind}

private theorem getLsbD_part (h : l.chosen ops = some (e, read)) {k : Nat} :
    (l.part ops g).getLsbD k = true ↔ (l.selection e g).getLsbD k = true ∨
      ∃ f ∈ e.fields, l.belongs g f = true ∧ (f.contribution read).getLsbD k = true := by
  rw [part, h]
  dsimp only
  rw [getLsbD_foldr_or (fun f : Field => f.contribution read)]
  simp only [fieldsOf, List.mem_filter, and_assoc]

private theorem getLsbD_partMask {k : Nat} :
    (l.partMask e g).getLsbD k = true ↔ (l.selection e g).getLsbD k = true ∨
      ∃ f ∈ e.fields, l.belongs g f = true ∧ f.mask.getLsbD k = true := by
  rw [partMask, getLsbD_foldr_or Field.mask]
  simp only [fieldsOf, List.mem_filter, and_assoc]

/-- The operands select an encoding that accepts them, as the given list. -/
structure Reads (l : Layout) (signature : List OperandKind) (ops : List Operand) (e : Encoding)
    (read : List Operand) : Prop where
  typed : ops.map Operand.kind = signature
  chosen : l.chosen ops = some (e, read)
  form : (e, read.map Operand.kind) ∈ l.forms signature
  accepted : e.fault read = none

theorem Reads.mem_encodings (h : l.Reads signature ops e read) : e ∈ l.encodings := by
  have hform := h.form
  cases l with
  | fixed e' =>
    cases List.mem_singleton.mp hform
    exact List.mem_singleton_self _
  | bySize | byAddress =>
    simp only [forms, List.mem_cons, List.not_mem_nil, or_false, Prod.mk.injEq] at hform
    rcases hform with ⟨rfl, -⟩ | ⟨rfl, -⟩
    · exact List.mem_cons_self
    · exact List.mem_cons_of_mem _ List.mem_cons_self

private theorem Reads.mask_of_part (h : l.Reads signature ops e read) {k : Nat}
    (hk : (l.part ops g).getLsbD k = true) :
    (l.partMask (e.trimmed (read.map Operand.kind)) g).getLsbD k = true := by
  rcases (getLsbD_part h.chosen).mp hk with hs | ⟨f, hf, hb, hk⟩
  · exact getLsbD_partMask.mpr (.inl hs)
  · rw [← Field.contribution_trim (Encoding.supports rfl h.accepted f.code)] at hk
    exact getLsbD_partMask.mpr
      (.inr ⟨_, Encoding.mem_trimmed hf, hb, Field.mask_of_contribution hk⟩)

theorem Divides.parts_disjoint (h : l.Divides signature) (hr : l.Reads signature ops e read) :
    (l.opcode :: (l.groups signature.length).map (l.part ops)).Pairwise (· &&& · = 0) := by
  have hm := h.apart _ hr.form
  rw [List.pairwise_cons, List.pairwise_map] at hm ⊢
  refine ⟨?_, hm.2.imp ?_⟩
  · intro w hw
    obtain ⟨g, hg, rfl⟩ := List.mem_map.mp hw
    have hmask := and_eq_zero_iff.mp (hm.1 _ (List.mem_map_of_mem hg))
    exact and_eq_zero_iff.mpr fun k ho hk => hmask k ho (hr.mask_of_part hk)
  · intro g g' hgg
    have hmask := and_eq_zero_iff.mp hgg
    exact and_eq_zero_iff.mpr fun k hk hk' => hmask k (hr.mask_of_part hk) (hr.mask_of_part hk')

private theorem getLsbD_opcode {k : Nat} (hk : k < 32) :
    l.opcode.getLsbD k = true ↔ ∀ e ∈ l.encodings, e.opcode.getLsbD k = true := by
  rw [opcode]
  induction l.encodings with
  | nil => simp only [List.foldr_nil, BitVec.getLsbD_allOnes, hk, decide_true, List.not_mem_nil,
      false_implies, implies_true]
  | cons e es ih => rw [List.foldr_cons, BitVec.getLsbD_and, Bool.and_eq_true, ih,
      List.forall_mem_cons]

private theorem opcode_of_selector_none (h : l.selector = none) (he : e ∈ l.encodings) :
    l.opcode = e.opcode := by
  cases l with
  | fixed e' =>
    cases List.mem_singleton.mp he
    exact BitVec.and_allOnes
  | _ => cases h

/-- The bits of an opcode are fixed, or they select the encoding. -/
private theorem Divides.getLsbD_encoding_opcode (h : l.Divides signature) (he : e ∈ l.encodings)
    {k : Nat} (hk : k < 32) : e.opcode.getLsbD k = true ↔ l.opcode.getLsbD k = true ∨
      ∃ g ∈ l.groups signature.length, (l.selection e g).getLsbD k = true := by
  constructor
  · intro ho
    cases hs : l.selector with
    | none => exact .inl (by rwa [opcode_of_selector_none hs he])
    | some s =>
      by_cases hl : l.opcode.getLsbD k = true
      · exact .inl hl
      · obtain ⟨g, hg, hsg⟩ := h.selects s hs
        refine .inr ⟨g, hg, ?_⟩
        rw [selection, isSelecting, hs, Option.any_some, List.contains_iff_mem.mpr hsg, if_pos rfl]
        simp only [BitVec.getLsbD_and, BitVec.getLsbD_not, ho, hk, Bool.eq_false_iff.mpr hl,
          decide_true, Bool.not_false, Bool.and_self]
  · rintro (hl | ⟨g, hg, hsel⟩)
    · exact (getLsbD_opcode hk).mp hl e he
    · rw [selection] at hsel
      split at hsel
      · rw [BitVec.getLsbD_and, Bool.and_eq_true] at hsel
        exact hsel.1
      · simp at hsel

theorem Divides.word_eq_parts (h : l.Divides signature) (hr : l.Reads signature ops e read) :
    e.word read =
      (l.groups signature.length).foldr (fun g w => l.part ops g ||| w) l.opcode := by
  have he := hr.mem_encodings
  apply BitVec.eq_of_getLsbD_eq
  intro k hk
  rw [Bool.eq_iff_iff, getLsbD_foldr_or, Encoding.word,
    getLsbD_foldr_or (fun f : Field => f.contribution read), h.getLsbD_encoding_opcode he hk]
  simp only [getLsbD_part hr.chosen]
  constructor
  · rintro ((ho | ⟨g, hg, hs⟩) | ⟨f, hf, hk⟩)
    · exact .inl ho
    · exact .inr ⟨g, hg, .inl hs⟩
    · obtain ⟨g, hg, hb⟩ := h.covers e he f hf
      exact .inr ⟨g, hg, .inr ⟨f, hf, hb, hk⟩⟩
  · rintro (ho | ⟨g, hg, hs | ⟨f, hf, -, hk⟩⟩)
    · exact .inl (.inl ho)
    · exact .inl (.inr ⟨g, hg, hs⟩)
    · exact .inr ⟨f, hf, hk⟩

theorem exists_reads {w : Word} (ht : ops.map Operand.kind = signature)
    (h : l.encode ops = .ok w) : ∃ e read, l.Reads signature ops e read ∧ e.word read = w := by
  cases l with
  | fixed e =>
    obtain ⟨hf, hw⟩ := Encoding.encode_eq_ok.mp h
    exact ⟨e, ops, ⟨ht, rfl, by rw [ht]; exact List.mem_singleton_self _, hf⟩, hw⟩
  | bySize slot size own other =>
    rw [encode] at h
    split at h
    · next hs =>
      obtain ⟨hf, hw⟩ := Encoding.encode_eq_ok.mp h
      refine ⟨own, ops, ⟨ht, by rw [chosen, if_pos hs], ?_, hf⟩, hw⟩
      rw [ht]
      exact List.mem_cons_self
    · next hs =>
      obtain ⟨hf, hw⟩ := Encoding.encode_eq_ok.mp h
      refine ⟨other, ops, ⟨ht, by rw [chosen, if_neg hs], ?_, hf⟩, hw⟩
      rw [ht]
      exact List.mem_cons_of_mem _ List.mem_cons_self
  | byAddress slot register immediate =>
    have hkinds (base : GeneralRegister) (offset : Operand) :
        (withOffset ops slot base offset).map Operand.kind =
          signature.take slot ++ [.general, offset.kind] := by
      rw [withOffset, List.map_append, List.map_take, ht]
      rfl
    simp only [encode] at h
    split at h
    · next hm =>
      obtain ⟨hf, hw⟩ := Encoding.encode_eq_ok.mp h
      refine ⟨register, _, ⟨ht, by rw [chosen, byMode, if_pos hm]; rfl, ?_, hf⟩, hw⟩
      rw [hkinds]
      exact List.mem_cons_self
    · next hm =>
      split at h
      · next hi =>
        obtain ⟨hf, hw⟩ := Encoding.encode_eq_ok.mp h
        refine ⟨immediate, _, ⟨ht, by rw [chosen, byMode, if_neg hm, if_pos hi]; rfl, ?_, hf⟩, hw⟩
        rw [hkinds]
        exact List.mem_cons_of_mem _ List.mem_cons_self
      · split at h <;> cases h

/-- Whether a layout is divided does not depend on its opcode, as long as no field reaches it. -/
private theorem Divides.withOpcode {checks : List Check} {op : Word} {fields : List Field}
    (h : (Layout.fixed ⟨checks, 0, fields⟩).Divides signature)
    (hs : ((Encoding.mk checks op fields).trimmed signature).Separate) :
    (Layout.fixed ⟨checks, op, fields⟩).Divides signature where
  partition := h.partition
  isGroup := h.isGroup
  selects _ hs := by cases hs
  covers e he f hf := by
    cases List.mem_singleton.mp he
    exact h.covers _ (List.mem_singleton_self _) f hf
  apart q hq := by
    cases List.mem_singleton.mp hq
    have hmasks := (List.pairwise_cons.mp (h.apart _ (List.mem_singleton_self _))).2
    refine List.pairwise_cons.mpr ⟨?_, hmasks⟩
    intro m hm
    obtain ⟨g, -, rfl⟩ := List.mem_map.mp hm
    refine and_eq_zero_iff.mpr fun k ho hk => ?_
    rcases getLsbD_partMask.mp hk with hsel | ⟨f, hf, -, hk⟩
    · have hzero : (0 : Word).getLsbD k = false := BitVec.getLsbD_zero
      exact absurd (hzero.symm.trans hsel) Bool.false_ne_true
    · obtain ⟨p, hp, hk⟩ := Field.getLsbD_mask.mp hk
      rw [opcode_of_selector_none rfl (List.mem_singleton_self _)] at ho
      have hmem := Encoding.mem_pieces hf hp
      exact and_eq_zero_iff.mp ((List.pairwise_cons.mp hs.1).1 _ (List.mem_map_of_mem hmem)) k ho hk

end Layout

namespace Catalogue

private theorem families_divide : ∀ f ∈ families,
    (Layout.fixed ⟨f.checks, 0, f.fields⟩).Divides f.signature := by
  decide +kernel

private theorem others_divide :
    ∀ i ∈ IndexedProduct.instruction :: Transfer.accesses.flatMap Transfer.Access.instructions,
      i.layout.Divides i.signature := by
  decide +kernel

theorem divides {i : Instruction} (hi : i ∈ instructions) : i.layout.Divides i.signature := by
  rcases List.mem_append.mp hi with hfam | ho
  · obtain ⟨f, hf, he⟩ := List.mem_flatMap.mp hfam
    obtain ⟨entry, -, rfl⟩ := List.mem_map.mp he
    exact (families_divide f hf).withOpcode (separate _ hi _ (List.mem_singleton_self _))
  · exact others_divide i ho

end Catalogue

end ScalableVector
