import ScalableVector.Proofs.Template

/-!
# Extensions that instructions need

Extensions decide whether a call is accepted and nothing else about it. What decides is one set for
each instruction, whatever the operands are.
-/

namespace ScalableVector

namespace FeatureSet

theorem includes_iff {a b : FeatureSet} : a.includes b ↔ a.bits &&& b.bits = b.bits := by
  rw [includes, beq_iff_eq]

theorem includes_trans {a b c : FeatureSet} (hab : a.includes b) (hbc : b.includes c) :
    a.includes c := by
  rw [includes_iff] at *
  rw [← hbc, ← UInt64.and_assoc, hab]

/-- Only the extensions with a name count for a set of such extensions. -/
theorem includes_congr {a b r : FeatureSet} (hr : all.includes r)
    (h : a.bits &&& all.bits = b.bits &&& all.bits) : a.includes r = b.includes r := by
  rw [includes_iff] at hr
  rw [includes, includes, ← hr, ← UInt64.and_assoc, ← UInt64.and_assoc, h]

end FeatureSet

namespace Catalogue

/-- What an instruction can need: nothing, the second generation, its bit permutations, or the
matrix multiply. -/
def requirements : List FeatureSet :=
  [.empty, .sve2, FeatureSet.sve2.union .bitPerm, .i8mm]

theorem requirement_mem : ∀ i ∈ instructions, i.requirement ∈ requirements := by
  have h : (instructions.all fun i => requirements.contains i.requirement) = true := by
    decide +kernel
  intro i hi
  exact List.contains_iff_mem.mp (List.all_eq_true.mp h i hi)

theorem all_includes_requirement {i : Instruction} (hi : i ∈ instructions) :
    FeatureSet.all.includes i.requirement := by
  have h : ∀ r ∈ requirements, FeatureSet.all.includes r = true := by decide
  exact h i.requirement (requirement_mem i hi)

def needing (r : FeatureSet) : List String :=
  (instructions.filter fun i => i.requirement = r).map Instruction.name

end Catalogue

namespace Call

theorem words_eq_of_encode_eq {c : Call} {a b : FeatureSet} (h : c.encode a = c.encode b) :
    c.words a = c.words b := by
  cases ha : c.encode a with
  | ok w => rw [(solo_of_ok ha).1, (solo_of_ok (h.symm.trans ha)).1]
  | error r => rw [(solo_of_error ha).1, (solo_of_error (h.symm.trans ha)).1]

theorem words_of_includes {c : Call} {a b : FeatureSet}
    (ha : a.includes c.instruction.requirement) (hb : b.includes c.instruction.requirement) :
    c.words a = c.words b := by
  apply words_eq_of_encode_eq
  simp only [encode, Instruction.encode, Instruction.word, if_pos ha, if_pos hb]

theorem words_of_not_includes {c : Call} {a : FeatureSet}
    (h : ¬a.includes c.instruction.requirement) : c.words a = [] := by
  have herror : c.encode a = .error ⟨c.instruction.mnemonic,
      .missingFeature (c.instruction.requirement.diff a) a⟩ := by
    simp only [encode, Instruction.encode, Instruction.word, if_neg h]
    rfl
  exact (solo_of_error herror).1

/-- The words of a call with some extensions, told by its words with all of them. -/
theorem words_eq_of_mem {c : Call} (hc : c.instruction ∈ Catalogue.instructions)
    (features : FeatureSet) :
    c.words features =
      if features.includes c.instruction.requirement then c.words .all else [] := by
  by_cases h : features.includes c.instruction.requirement
  · rw [if_pos h, words_of_includes h (Catalogue.all_includes_requirement hc)]
  · rw [if_neg h, words_of_not_includes h]

/-- Extensions matter through one requirement for each instruction, which is empty, the second
generation, the bit permutations of just three instructions, or the matrix multiply of just three
others. A call is accepted with some extensions exactly if they include the requirement and the
call is accepted with all extensions, and its word is the same then. So more extensions never lose
a call or change a word, and bits that name no extension never matter. -/
theorem accepted_iff_requirement :
    (∀ i ∈ Catalogue.instructions, i.requirement ∈ Catalogue.requirements) ∧
      Catalogue.needing (FeatureSet.sve2.union .bitPerm) = ["Bext", "Bdep", "Bgrp"] ∧
      Catalogue.needing .i8mm = ["Smmla", "Usmmla", "Ummla"] ∧
      ∀ c : Call, c.instruction ∈ Catalogue.instructions → ∀ features : FeatureSet,
        (∀ w, c.words features = [w] ↔
          features.includes c.instruction.requirement ∧ c.Accepted w) ∧
        (∀ larger : FeatureSet, larger.includes features →
          ∀ w, c.words features = [w] → c.words larger = [w]) ∧
        ∀ other : FeatureSet,
          features.bits &&& FeatureSet.all.bits = other.bits &&& FeatureSet.all.bits →
          c.words features = c.words other := by
  refine ⟨Catalogue.requirement_mem, by decide +kernel, by decide +kernel, ?_⟩
  intro c hc features
  have haccepted : ∀ w, c.words features = [w] ↔
      features.includes c.instruction.requirement ∧ c.Accepted w := by
    intro w
    rw [words_eq_of_mem hc, Accepted]
    by_cases h : features.includes c.instruction.requirement <;> simp [h]
  refine ⟨haccepted, ?_, ?_⟩
  · intro larger hlarger w hw
    obtain ⟨hincludes, _⟩ := (haccepted w).mp hw
    rw [words_of_includes (FeatureSet.includes_trans hlarger hincludes) hincludes, hw]
  · intro other hother
    rw [words_eq_of_mem hc features, words_eq_of_mem hc other,
      FeatureSet.includes_congr (Catalogue.all_includes_requirement hc) hother]

private def extraction : Call :=
  ⟨Unpredicated.bitPermutation.instruction ⟨"Bext", "bext", 0x4500b000⟩,
    [.element .double, .vector ⟨1⟩, .vector ⟨2⟩, .vector ⟨3⟩], rfl⟩

private theorem extraction_mem : extraction.instruction ∈ Catalogue.instructions := by
  apply Catalogue.mem_of_family
  · simp [Catalogue.families, Unpredicated.families]
  · exact List.mem_cons_self

theorem words_extraction :
    extraction.Accepted 0x45c3b041 ∧ extraction.words .sve2 ≠ [0x45c3b041] ∧
      extraction.words .bitPerm ≠ [0x45c3b041] ∧
      extraction.words (FeatureSet.sve2.union .bitPerm) = [0x45c3b041] ∧
      extraction.words ⟨0xfffffffffffffffb⟩ = [0x45c3b041] := by
  obtain ⟨_, _, _, h⟩ := accepted_iff_requirement
  have haccepted := fun features => (h extraction extraction_mem features).1 0x45c3b041
  have hword : extraction.Accepted 0x45c3b041 := by decide +kernel
  refine ⟨hword, ?_, ?_, (haccepted _).mpr ⟨by decide, hword⟩, (haccepted _).mpr ⟨by decide, hword⟩⟩
  · intro hsve2
    exact absurd ((haccepted _).mp hsve2).1 (by decide)
  · intro hbitPerm
    exact absurd ((haccepted _).mp hbitPerm).1 (by decide)

end Call

end ScalableVector
