import ScalableVector.Proofs.Classification

/-!
# Overwriting instructions

An instruction that overwrites its first source is written with the same register in both places.
With another register as the source it is refused, whatever its other operands are.
-/

namespace ScalableVector

/-- Instructions that overwrite a source, with the slots of the destination and of this source. -/
structure Overwriting where
  names : List String
  destination : Nat
  source : Nat

def overwriting : List Overwriting := [
  -- arithmetic on active elements
  ⟨["AddPred", "SubPred", "Subr", "Smax", "Umax", "Smin", "Umin", "Sabd", "Uabd", "MulPred",
    "SmulhPred", "UmulhPred", "OrrPred", "EorPred", "AndPred", "BicPred", "AsrPred", "LsrPred",
    "LslPred", "Asrr", "Lsrr", "Lslr", "Sdiv", "Udiv", "Sdivr", "Udivr", "AsrWidePred",
    "LsrWidePred", "LslWidePred", "Shadd", "Uhadd", "Shsub", "Uhsub", "Srhadd", "Urhadd",
    "Shsubr", "Uhsubr", "Addp", "Smaxp", "Umaxp", "Sminp", "Uminp", "SqaddPred", "UqaddPred",
    "SqsubPred", "UqsubPred", "Suqadd", "Usqadd", "Sqsubr", "Uqsubr", "FaddPred", "FsubPred",
    "FmulPred", "Fsubr", "Fmaxnm", "Fminnm", "Fmax", "Fmin", "Fabd", "Fscale", "Fmulx", "Fdivr",
    "Fdiv", "Faddp", "Fmaxnmp", "Fminnmp", "Fmaxp", "Fminp"], 1, 3⟩,
  -- shifts of active elements by an immediate
  ⟨["AsrImmPred", "LsrImmPred", "Asrd", "LslImmPred", "Srshr", "Urshr", "Sqshl", "Uqshl",
    "Sqshlu"], 1, 3⟩,
  -- bitwise operations on three sources
  ⟨["Eor3", "Bsl", "Bcax", "Bsl1n", "Bsl2n", "Nbsl"], 0, 1⟩,
  -- complex additions
  ⟨["Cadd", "Sqcadd"], 1, 2⟩,
  ⟨["Fcadd"], 1, 3⟩,
  -- the last active element, in a vector, a vector element or a general register
  ⟨["Clasta", "Clastb", "ClastaV", "ClastbV", "ClastaR", "ClastbR"], 1, 3⟩,
  ⟨["SpliceDestructive"], 1, 3⟩,
  ⟨["ExtDestructive"], 0, 1⟩,
  ⟨["Fadda"], 1, 3⟩,
  ⟨["Ftmad"], 1, 2⟩,
  -- predicates that are advanced from their last value
  ⟨["Brkn", "Brkns"], 0, 3⟩,
  ⟨["Pnext"], 1, 3⟩,
  ⟨["Pfirst"], 0, 2⟩]

def Check.equates (a b : Nat) : Check → Bool
  | .aliased _ s _ t => s == a && t == b
  | _ => false

theorem Check.operandAt_of_equates {k : Check} {a b : Nat} (hk : k.equates a b = true)
    {ops : List Operand} (h : k.fault ops = none) : operandAt ops a = operandAt ops b := by
  cases k with
  | aliased _ s _ t =>
    simp only [equates, Bool.and_eq_true, beq_iff_eq] at hk
    rw [← hk.1, ← hk.2]
    exact aliased_of_fault h
  | _ => cases hk

/-- The encoding wants the source to be the destination, and bounds no value by the source. -/
structure Encoding.Overwrites (e : Encoding) (destination source : Nat) : Prop where
  distinct : destination ≠ source
  equated : ∃ k ∈ e.checks, k.equates destination source = true
  unbound : ∀ k ∈ e.checks, source ∈ k.slots → k.isBound = false

instance (e : Encoding) (destination source : Nat) : Decidable (e.Overwrites destination source) :=
  decidable_of_iff
    (destination ≠ source ∧ (∃ k ∈ e.checks, k.equates destination source = true) ∧
      ∀ k ∈ e.checks, source ∈ k.slots → k.isBound = false)
    ⟨fun h => ⟨h.1, h.2.1, h.2.2⟩, fun h => ⟨h.distinct, h.equated, h.unbound⟩⟩

def Layout.equates : Layout → Bool
  | .fixed e => e.checks.any fun | .aliased .. => true | _ => false
  | _ => false

-- few instructions equate operands, so only these are searched for each name
private theorem Catalogue.overwrites_of_equates : ∀ g ∈ overwriting, ∀ name ∈ g.names,
    ∃ i ∈ Catalogue.instructions.filter (·.layout.equates), i.name = name ∧
      ∃ e ∈ i.layout.fixed?, e.Overwrites g.destination g.source := by
  decide +kernel

theorem Catalogue.overwrites : ∀ g ∈ overwriting, ∀ name ∈ g.names,
    ∃ i ∈ Catalogue.instructions, i.name = name ∧
      ∃ e ∈ i.layout.fixed?, e.Overwrites g.destination g.source := by
  intro g hg name hname
  obtain ⟨i, hi, h⟩ := Catalogue.overwrites_of_equates g hg name hname
  exact ⟨i, (List.mem_filter.mp hi).1, h⟩

/-- An operand that bounds no value can only be an invalid argument in a list that is accepted with
another operand in its place. -/
theorem AgreeExcept.rejectionClass {slot : Nat} {a b : List Operand} {e : Encoding}
    (h : AgreeExcept slot a b) (hslot : ∀ k ∈ e.checks, slot ∈ k.slots → k.isBound = false)
    {cause : Cause} (ha : e.fault a = some cause) (hb : e.fault b = none) :
    cause.rejectionClass = .invalidArgument := by
  obtain ⟨k, hk, hfault⟩ := List.exists_of_findSome?_eq_some ha
  -- a check that does not read the slot would find the same fault in the other list
  have hmem : slot ∈ k.slots := by
    by_contra hn
    rw [Check.fault_congr (h.operandAt_of_notMem hn), Encoding.fault_eq_none.mp hb k hk] at hfault
    cases hfault
  exact Check.rejectionClass_of_not_isBound (hslot k hk hmem) hfault

namespace Call

variable {c : Call} {features : FeatureSet} {e : Encoding}

theorem error_eq_none_iff : c.error features = none ↔ ∃ w, c.encode features = .ok w := by
  cases h : c.encode features with
  | ok w => simp [(solo_of_ok h).2]
  | error r => simp [(solo_of_error h).2]

theorem error_eq_none_iff_of_fixed (hl : c.instruction.layout = .fixed e) :
    c.error features = none ↔
      features.includes c.instruction.requirement = true ∧ e.fault c.operands = none := by
  rw [error_eq_none_iff, Call.encode, Instruction.encode, Instruction.word, hl, Layout.encode,
    Encoding.encode]
  cases features.includes c.instruction.requirement <;> cases e.fault c.operands <;>
    simp [Except.mapError]

theorem rejected_of_fixed (hl : c.instruction.layout = .fixed e)
    (hr : features.includes c.instruction.requirement = true) {cause : Cause}
    (h : e.fault c.operands = some cause) :
    c.words features = [] ∧ c.error features = some ⟨c.instruction.mnemonic, cause⟩ := by
  apply solo_of_error
  rw [Call.encode, Instruction.encode, Instruction.word, if_pos hr, hl, Layout.encode,
    Encoding.encode, h]
  rfl

end Call

/-- An accepted call names the destination as the source that is overwritten. Naming any other
source instead makes the call an invalid argument, and nothing is written. -/
theorem source_of_overwriting {σ : Type} [Sink σ] :
    ∀ g ∈ overwriting, ∀ name ∈ g.names, ∃ i ∈ Catalogue.instructions, i.name = name ∧
      ∀ (emitter : Emitter σ) (c : Call), emitter.rejection = none → c.instruction = i →
        (emitter.emit c).rejection = none →
          operandAt c.operands g.source = operandAt c.operands g.destination ∧
          ∀ d : Call, d.instruction = i → AgreeExcept g.source d.operands c.operands →
            operandAt d.operands g.source ≠ operandAt c.operands g.source →
              (emitter.emit d).sink = emitter.sink ∧
                ∃ r, (emitter.emit d).rejection = some r ∧
                  r.cause.rejectionClass = .invalidArgument := by
  intro g hg name hname
  obtain ⟨i, hi, hin, e, he, hover⟩ := Catalogue.overwrites g hg name hname
  have hl : i.layout = .fixed e := Layout.eq_of_fixed he
  refine ⟨i, hi, hin, fun emitter c hopen hci hc => ?_⟩
  rw [(Emitter.emit_of_open hopen c).2.2, Call.error_eq_none_iff_of_fixed (hci ▸ hl)] at hc
  obtain ⟨hrequired, hpass⟩ := hc
  obtain ⟨k, hk, hequates⟩ := hover.equated
  have hsame : operandAt c.operands g.destination = operandAt c.operands g.source :=
    Check.operandAt_of_equates hequates (Encoding.fault_eq_none.mp hpass k hk)
  refine ⟨hsame.symm, fun d hdi hagree hne => ?_⟩
  have hdestination := hagree g.destination hover.distinct
  cases hfault : e.fault d.operands with
  | none =>
    have heq := Check.operandAt_of_equates hequates (Encoding.fault_eq_none.mp hfault k hk)
    exact absurd (heq.symm.trans (hdestination.trans hsame)) hne
  | some cause =>
    obtain ⟨hwords, herror⟩ :=
      Call.rejected_of_fixed (hdi ▸ hl) (by rw [hdi, ← hci]; exact hrequired) hfault
    obtain ⟨-, hsink, hrejection⟩ := Emitter.emit_of_open hopen d
    rw [hsink, hrejection, hwords, herror]
    exact ⟨rfl, _, rfl, hagree.rejectionClass hover.unbound hfault hpass⟩

private def lastElement (source : GeneralRegister) : Call :=
  ⟨Permutation.conditionalRegister.instruction ⟨"ClastaR", "clasta", 0x0530a000⟩,
    [.element .double, .general (.x 0), .predicate .plain ⟨3⟩, .general source, .vector ⟨7⟩], rfl⟩

/-- The two views of a register are different sources. -/
theorem source_of_overwriting_views :
    let emitter := Emitter.new .standard WordLog.empty
    (emitter.emit (lastElement (.x 0))).rejection = none ∧
      (emitter.emit (lastElement (.w 0))).sink = emitter.sink ∧
        ∃ r, (emitter.emit (lastElement (.w 0))).rejection = some r ∧
          r.cause.rejectionClass = .invalidArgument := by
  intro emitter
  have hgroup : ⟨["Clasta", "Clastb", "ClastaV", "ClastbV", "ClastaR", "ClastbR"], 1, 3⟩ ∈
      overwriting := List.mem_of_getElem? (i := 5) rfl
  obtain ⟨i, hi, hname, h⟩ := source_of_overwriting (σ := WordLog) _ hgroup "ClastaR" (by decide)
  have hmem : (lastElement (.x 0)).instruction ∈ Catalogue.instructions :=
    Catalogue.mem_of_family (by simp [Catalogue.families, Permutation.families])
      List.mem_cons_self
  have heq : (lastElement (.x 0)).instruction = i := Catalogue.eq_of_name hmem hi hname.symm
  have haccepted : (emitter.emit (lastElement (.x 0))).rejection = none := by decide +kernel
  refine ⟨haccepted, (h emitter _ rfl heq haccepted).2 (lastElement (.w 0)) heq ?_ (by decide)⟩
  intro slot hslot
  have hset : (lastElement (.w 0)).operands =
      (lastElement (.x 0)).operands.set 3 (.general (.w 0)) := rfl
  rw [operandAt, operandAt, hset, List.getD_eq_getElem?_getD, List.getD_eq_getElem?_getD,
    List.getElem?_set_ne hslot.symm]

end ScalableVector
