import ScalableVector.Proofs.Names
import ScalableVector.Proofs.NormalForm
import ScalableVector.Proofs.Recovery

/-!
# Separation of instructions

The bits that no operand reaches, together with the values that element sizes can take, tell all
instructions apart that are not further names of one another. With the recovery of operands, two
accepted calls have the same word exactly if they have the same normal form.
-/

namespace ScalableVector

def Field.mask (f : Field) : Word := f.pieces.foldr (fun p m => p.mask ||| m) 0

/-- Words that have given bits at the places of a mask. -/
structure Frame where
  mask : Word
  bits : Word

def Frame.Holds (s : Frame) (w : Word) : Prop := w &&& s.mask = s.bits

namespace Encoding

/-- The frames within a frame that a field leaves: one for each choice of element sizes, if they
select what the field holds. -/
def refine (e : Encoding) (f : Field) (s : Frame) : List Frame :=
  match f.code with
  | .select slots table =>
    if (e.keys slots).isEmpty then [s]
    else (e.keys slots).map fun k => ⟨s.mask ||| f.mask, s.bits ||| f.placed (selected table k)⟩
  | _ => [s]

def frames (e : Encoding) : List Frame :=
  e.fields.foldr (fun f l => l.flatMap (e.refine f)) [⟨~~~e.mask, e.opcode⟩]

variable {e : Encoding} {ops : List Operand}

private theorem and_masks_eq_placed {w v : Word} {ps : List Piece}
    (h : ∀ p ∈ ps, w &&& p.mask = p.place v) :
    w &&& ps.foldr (fun p m => p.mask ||| m) 0 = ps.foldr (fun p m => p.place v ||| m) 0 := by
  induction ps with
  | nil => exact BitVec.and_zero
  | cons p ps ih =>
    rw [List.foldr_cons, List.foldr_cons, BitVec.and_or_distrib_left, h p List.mem_cons_self,
      ih fun q hq => h q (List.mem_cons_of_mem _ hq)]

private theorem word_and_fieldMask (h : e.Separate) (ops : List Operand) {f : Field}
    (hf : f ∈ e.fields) :
    e.word ops &&& f.mask = f.placed (f.code.value ops) :=
  and_masks_eq_placed fun _ hp => word_and_mask h ops (mem_pieces hf hp)

private theorem exists_refine (h : e.Separate) (hf : e.fault ops = none) {f : Field}
    (hmem : f ∈ e.fields) {s : Frame} (hs : s.Holds (e.word ops)) :
    ∃ s' ∈ e.refine f s, s'.Holds (e.word ops) := by
  rw [refine]
  split
  · next slots table hc =>
    split
    · exact ⟨s, List.mem_singleton_self s, hs⟩
    · next hk =>
      have hkeys := mem_keys hf (Bool.eq_false_iff.mpr hk)
      refine ⟨_, List.mem_map.mpr ⟨_, hkeys, rfl⟩, ?_⟩
      have hfield := word_and_fieldMask h ops hmem
      rw [hc] at hfield
      rw [Frame.Holds] at hs ⊢
      rw [BitVec.and_or_distrib_left, hs, hfield]
      rfl
  · exact ⟨s, List.mem_singleton_self s, hs⟩

/-- Every accepted word lies in a frame of its encoding. -/
theorem exists_frame (h : e.Separate) (hf : e.fault ops = none) :
    ∃ s ∈ e.frames, s.Holds (e.word ops) := by
  have hall (fs : List Field) (hfs : ∀ f ∈ fs, f ∈ e.fields) :
      ∃ s ∈ fs.foldr (fun f l => l.flatMap (e.refine f)) [⟨~~~e.mask, e.opcode⟩],
        s.Holds (e.word ops) := by
    induction fs with
    | nil => exact ⟨_, List.mem_singleton_self _, word_and_not_mask h ops⟩
    | cons f fs ih =>
      obtain ⟨s, hs, hw⟩ := ih fun g hg => hfs g (List.mem_cons_of_mem _ hg)
      obtain ⟨s', hs', hw'⟩ := exists_refine h hf (hfs f List.mem_cons_self) hw
      exact ⟨s', List.mem_flatMap.mpr ⟨s, hs, hs'⟩, hw'⟩
  exact hall e.fields fun _ hf => hf

end Encoding

def Template.shapes (t : Template) : List (Shape Template) :=
  t.trimmed.frames.map fun s => ⟨t, s.mask.toNat, s.bits.toNat⟩

namespace Catalogue

private theorem canonical_apart :
    Shape.evaluated (Shape.apart 32) (canonical.flatMap Template.shapes) [] = true := by
  decide +kernel

private theorem exists_instruction {t : Template} (h : t ∈ canonical) :
    ∃ i ∈ instructions, i.layout.isDirect = true ∧ t ∈ i.templates := by
  obtain ⟨i, hi, ht⟩ := List.mem_flatMap.mp (List.mem_filter.mp h).1
  obtain ⟨hi, hd⟩ := List.mem_filter.mp hi
  exact ⟨i, hi, hd, ht⟩

private theorem exists_shape {t : Template} (h : t ∈ canonical) {ops : List Operand} {w : Word}
    (hy : t.unqualified.Yields ops w) :
    ∃ s ∈ canonical.flatMap Template.shapes, s.owner = t ∧ s.fits w.toNat = true := by
  obtain ⟨i, hi, -, ht⟩ := exists_instruction h
  have hword : t.trimmed.word ops = w := by rw [← t.trimmed_unqualified, hy.word_trimmed]
  have haccepted : t.trimmed.fault ops = none := hy.accepted
  obtain ⟨s, hs, hw⟩ := Encoding.exists_frame (separate i hi t ht) haccepted
  refine ⟨⟨t, s.mask.toNat, s.bits.toNat⟩, ?_, rfl, ?_⟩
  · exact List.mem_flatMap.mpr ⟨t, h, List.mem_map.mpr ⟨s, hs, rfl⟩⟩
  · rw [Shape.fits, beq_iff_eq, ← BitVec.toNat_and, ← hword]
    exact congrArg BitVec.toNat hw

/-- A word belongs to one template. -/
theorem eq_of_yields {t u : Template} (ht : t ∈ canonical) (hu : u ∈ canonical)
    {a b : List Operand} {w : Word} (hta : t.unqualified.Yields a w)
    (hub : u.unqualified.Yields b w) : t = u := by
  obtain ⟨s, hs, rfl, hsw⟩ := exists_shape ht hta
  obtain ⟨r, hr, rfl, hrw⟩ := exists_shape hu hub
  rw [Shape.eq_of_fits canonical_apart hs hr hsw hrw]

theorem operands_eq_of_yields {t : Template} (ht : t ∈ canonical) {a b : List Operand} {w : Word}
    (hra : RotationsDefined a) (hrb : RotationsDefined b) (hta : t.unqualified.Yields a w)
    (htb : t.unqualified.Yields b w) : a = b := by
  obtain ⟨i, hi, -, hmem⟩ := exists_instruction ht
  have hword : t.trimmed.word a = t.trimmed.word b := by
    rw [← t.trimmed_unqualified, hta.word_trimmed, htb.word_trimmed]
  have htwins : t.trimmed.Twins (t.signature.map .unqualified) a b :=
    ⟨separate i hi t hmem, hta.typed, htb.typed, hta.accepted, htb.accepted, hra, hrb, hword⟩
  exact htwins.operands_eq (recovers hi hmem)

theorem word_eq_of_name {t u : Template} (ht : t ∈ canonical) (hu : u ∈ canonical)
    (hn : t.name = u.name) {ops : List Operand} {w v : Word} (htw : t.unqualified.Yields ops w)
    (huv : u.unqualified.Yields ops v) : w = v := by
  obtain ⟨i, hi, hdi, hti⟩ := exists_instruction ht
  obtain ⟨j, hj, hdj, huj⟩ := exists_instruction hu
  have hij : i = j := by
    apply eq_of_name hi hj
    rw [← Instruction.name_of_template hdi hti, ← Instruction.name_of_template hdj huj, hn]
  subst hij
  have hw := Instruction.encode_of_template hi hdi hti htw.accepted
  have hv := Instruction.encode_of_template hi hdi huj huv.accepted
  rw [hw, Except.ok.injEq] at hv
  exact htw.word.symm.trans (hv.trans huv.word)

end Catalogue

namespace Call

private theorem rotation_of_unqualified {o : Operand} {r : Rotation}
    (h : o.unqualified = .rotation r) : o = .rotation r := by
  cases o <;> first | exact h | cases h

private theorem rotations_withOffset {ops tail : List Operand} (h : RotationsDefined ops)
    (ht : ∀ r, .rotation r ∉ tail) : RotationsDefined (ops.dropLast ++ tail) := by
  intro r hr
  rcases List.mem_append.mp hr with hr | hr
  · exact h r ((List.dropLast_sublist ops).subset hr)
  · exact absurd hr (ht r)

theorem rotations_resolved {c : Call} (h : RotationsDefined c.operands) :
    RotationsDefined c.resolved.operands := by
  rw [resolved]
  split
  · split
    · exact rotations_withOffset h (by simp)
    · exact rotations_withOffset h (by simp)
  · exact h

private theorem rotations_normalForm {c : Call} (h : RotationsDefined c.operands) :
    RotationsDefined c.normalForm.operands := by
  have hres := rotations_resolved h
  intro r hr
  rw [normalForm, Spelling.normal] at hr
  split at hr
  · obtain ⟨slot, -, hr⟩ := List.mem_map.mp hr
    exact hres r (rotation_mem_of_operandAt (rotation_of_unqualified hr))
  · obtain ⟨o, ho, hr⟩ := List.mem_map.mp hr
    rw [rotation_of_unqualified hr] at ho
    exact hres r ho

/-- Two accepted calls have the same word exactly if they have the same normal form. -/
theorem word_eq_iff_normalForm_eq {c d : Call} {w v : Word}
    (hc : c.instruction ∈ Catalogue.instructions) (hd : d.instruction ∈ Catalogue.instructions)
    (hrc : RotationsDefined c.operands) (hrd : RotationsDefined d.operands)
    (hw : c.Accepted w) (hv : d.Accepted v) : w = v ↔ c.normalForm = d.normalForm := by
  obtain ⟨t, ht, htn, hty⟩ := exists_canonical hc (accepted_iff.mp hw)
  obtain ⟨u, hu, hun, huy⟩ := exists_canonical hd (accepted_iff.mp hv)
  constructor
  · rintro rfl
    cases Catalogue.eq_of_yields ht hu hty huy
    have hops := Catalogue.operands_eq_of_yields ht (rotations_normalForm hrc)
      (rotations_normalForm hrd) hty huy
    exact Spelling.ext (htn.symm.trans hun) hops
  · intro heq
    rw [heq] at htn hty
    exact Catalogue.word_eq_of_name ht hu (htn.trans hun.symm) hty huy

/-- Is the absolute value of `z3` at most that of `z4`? -/
private def facle : Call :=
  ⟨Comparison.floatingSwapped.instruction ⟨"Facle", "facle", 0x6500c010⟩,
    [.element .single, .predicate .plain ⟨1⟩, .predicate .zeroing ⟨2⟩, .vector ⟨3⟩, .vector ⟨4⟩],
    rfl⟩

private def facge : Call :=
  ⟨Comparison.floating.instruction ⟨"Facge", "facge", 0x6500c010⟩,
    [.element .single, .predicate .plain ⟨1⟩, .predicate .zeroing ⟨2⟩, .vector ⟨4⟩, .vector ⟨3⟩],
    rfl⟩

theorem normalForm_facle_eq_facge :
    facle.Accepted 0x6583c891 ∧ facge.Accepted 0x6583c891 ∧
      facle.normalForm = facge.normalForm := by
  have hw : facle.Accepted 0x6583c891 := by decide +kernel
  have hv : facge.Accepted 0x6583c891 := by decide +kernel
  have hc : facle.instruction ∈ Catalogue.instructions :=
    Catalogue.mem_of_family (by simp [Catalogue.families, Comparison.families])
      List.mem_cons_self
  have hd : facge.instruction ∈ Catalogue.instructions :=
    Catalogue.mem_of_family (by simp [Catalogue.families, Comparison.families])
      (by simp [Comparison.floating])
  exact ⟨hw, hv, (word_eq_iff_normalForm_eq hc hd (by simp [RotationsDefined, facle])
    (by simp [RotationsDefined, facge]) hw hv).mp rfl⟩

end Call

end ScalableVector
