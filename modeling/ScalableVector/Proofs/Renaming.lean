import ScalableVector.Proofs.Fit

/-!
# Renamed slots

An encoding sees the operands through their slots only, and no field and no check depends on the
qualifier of a predicate. Two encodings that differ in the slots they name therefore agree on
operands that are moved accordingly.
-/

namespace ScalableVector

def Operand.unqualified : Operand → Operand
  | .predicate _ p => .predicate .plain p
  | o => o

def OperandKind.unqualified : OperandKind → OperandKind
  | .predicate _ => .predicate .plain
  | k => k

theorem Operand.kind_unqualified (o : Operand) : o.unqualified.kind = o.kind.unqualified := by
  cases o <;> rfl

private theorem Check.range_unqualified (kind : OperandKind) (slot : Nat) (c : Check) :
    c.range kind.unqualified slot = c.range kind slot := by
  cases kind with
  | predicate =>
    cases c <;> simp [range, OperandKind.unqualified, OperandKind.fileRange]
  | _ => rfl

private theorem Encoding.checkedRanges_unqualified (e : Encoding) (signature : List OperandKind)
    (slot : Nat) :
    e.checkedRanges (signature.map .unqualified) slot = e.checkedRanges signature slot := by
  rw [checkedRanges, checkedRanges, List.getElem?_map]
  cases signature[slot]? with
  | none => rfl
  | some kind =>
    have hkind : kind.unqualified.range = kind.range := by cases kind <;> rfl
    have hchecks : Check.range kind.unqualified slot = Check.range kind slot :=
      funext (Check.range_unqualified kind slot)
    simp only [Option.map_some, hkind, hchecks]

theorem Encoding.trimmed_unqualified (e : Encoding) (signature : List OperandKind) :
    e.trimmed (signature.map .unqualified) = e.trimmed signature := by
  have hwidth (slot : Nat) :
      e.width (signature.map .unqualified) slot = e.width signature slot := by
    rw [width, width, checkedRanges_unqualified]
  have hsupport (c : Code) :
      e.support (signature.map .unqualified) c = e.support signature c := by
    cases c with
    | operand slot => rw [support, support, hwidth]
    | shift part => cases part <;> rfl
    | _ => rfl
  simp only [trimmed, hsupport]

def ShiftAmount.rename (move : Nat → Nat) : ShiftAmount → ShiftAmount
  | .operand slot => .operand (move slot)
  | .width => .width

def Code.rename (move : Nat → Nat) : Code → Code
  | .operand slot => .operand (move slot)
  | .quotient slot divisor => .quotient (move slot) divisor
  | .is64 slot => .is64 (move slot)
  | .select slots table => .select (slots.map move) table
  | .shift part direction element amount =>
    .shift part direction (move element) (amount.rename move)
  | .longShift element amount => .longShift (move element) (move amount)
  | .lane element index => .lane (move element) (move index)
  | .float slot => .float (move slot)

def Check.rename (move : Nat → Nat) : Check → Check
  | .size slot allowed => .size (move slot) allowed
  | .register slot => .register (move slot)
  | .governing slot => .governing (move slot)
  | .wide slot => .wide (move slot)
  | .offset slot => .offset (move slot)
  | .sameWidth a b => .sameWidth (move a) (move b)
  | .elementRegister element slot => .elementRegister (move element) (move slot)
  | .aliased first a second b => .aliased first (move a) second (move b)
  | .sequential slots => .sequential (slots.map move)
  | .bounds what slot lo hi => .bounds what (move slot) lo hi
  | .multiple what slot factor => .multiple what (move slot) factor
  | .shift direction element amount => .shift direction (move element) (amount.rename move)
  | .longShift element amount => .longShift (move element) (move amount)
  | .rotation slot => .rotation (move slot)
  | .unshiftedByte element shifted => .unshiftedByte (move element) (move shifted)
  | .float slot => .float (move slot)
  | .convertible direction source target table =>
    .convertible direction (move source) (move target) table
  | .lane element index => .lane (move element) (move index)

/-- Every slot of the new list holds what the slot it is moved to holds in the old one, up to the
qualifier. -/
def Moved (move : Nat → Nat) (new old : List Operand) : Prop :=
  ∀ slot, operandAt new slot = (operandAt old (move slot)).unqualified

namespace Moved

variable {move : Nat → Nat} {new old : List Operand}

private theorem valueAt_eq (h : Moved move new old) (slot : Nat) :
    valueAt new slot = valueAt old (move slot) := by
  rw [valueAt, valueAt, h slot]
  cases operandAt old (move slot) <;> rfl

private theorem elementAt_eq (h : Moved move new old) (slot : Nat) :
    elementAt new slot = elementAt old (move slot) := by
  rw [elementAt, elementAt, h slot]
  cases operandAt old (move slot) <;> rfl

private theorem generalAt_eq (h : Moved move new old) (slot : Nat) :
    generalAt new slot = generalAt old (move slot) := by
  rw [generalAt, generalAt, h slot]
  cases operandAt old (move slot) <;> rfl

private theorem vectorAt_eq (h : Moved move new old) (slot : Nat) :
    vectorAt new slot = vectorAt old (move slot) := by
  rw [vectorAt, vectorAt, h slot]
  cases operandAt old (move slot) <;> rfl

private theorem rotationAt_eq (h : Moved move new old) (slot : Nat) :
    rotationAt new slot = rotationAt old (move slot) := by
  rw [rotationAt, rotationAt, h slot]
  cases operandAt old (move slot) <;> rfl

private theorem floatAt_eq (h : Moved move new old) (slot : Nat) :
    floatAt new slot = floatAt old (move slot) := by
  rw [floatAt, floatAt, h slot]
  cases operandAt old (move slot) <;> rfl

private theorem inFile_eq (h : Moved move new old) (slot : Nat) :
    (operandAt new slot).inFile = (operandAt old (move slot)).inFile := by
  rw [h slot]
  cases operandAt old (move slot) <;> rfl

private theorem amount_rename (h : Moved move new old) (amount : ShiftAmount) (slot : Nat) :
    (amount.rename move).value old (move slot) = amount.value new slot := by
  cases amount with
  | operand s => exact (h.valueAt_eq s).symm
  | width => rw [ShiftAmount.rename, ShiftAmount.value, ShiftAmount.value, h.elementAt_eq]

theorem value_rename (h : Moved move new old) (c : Code) :
    (c.rename move).value old = c.value new := by
  cases c with
  | select slots table =>
    have hs : (slots.map move).map (elementAt old) = slots.map (elementAt new) := by
      rw [List.map_map]
      exact List.map_congr_left fun slot _ => (h.elementAt_eq slot).symm
    simp only [Code.rename, Code.value, hs]
  | _ =>
    simp only [Code.rename, Code.value, h.amount_rename, h.valueAt_eq, h.elementAt_eq,
      h.generalAt_eq, h.floatAt_eq]

private theorem registerFault_rename (h : Moved move new old) {slot : Nat} :
    Check.registerFault new slot = none ↔ Check.registerFault old (move slot) = none := by
  rw [Check.registerFault, Check.registerFault, h.inFile_eq]
  split <;> simp

private theorem wideFault_rename (h : Moved move new old) {slot : Nat} :
    Check.wideFault new slot = none ↔ Check.wideFault old (move slot) = none := by
  rw [Check.wideFault, Check.wideFault, Option.or_eq_none_iff, Option.or_eq_none_iff,
    h.registerFault_rename, h.generalAt_eq]

/-- A check that the old operands pass, the moved ones pass with its slots renamed. -/
theorem fault_rename (h : Moved move new old) {c : Check}
    (hf : (c.rename move).fault old = none) : c.fault new = none := by
  cases c with
  | register slot => exact h.registerFault_rename.mpr hf
  | wide slot => exact h.wideFault_rename.mpr hf
  | offset slot =>
    simp only [Check.rename, Check.fault, Option.or_eq_none_iff] at hf ⊢
    exact ⟨h.wideFault_rename.mpr hf.1, by rw [h.generalAt_eq]; exact hf.2⟩
  | elementRegister element slot =>
    simp only [Check.rename, Check.fault, Option.or_eq_none_iff] at hf ⊢
    refine ⟨h.registerFault_rename.mpr hf.1, ?_⟩
    rw [h.generalAt_eq, h.elementAt_eq]
    exact hf.2
  | governing slot =>
    simp only [Check.rename, Check.fault, h.valueAt_eq] at hf ⊢
    split at hf
    · next hle => rw [if_pos hle]
    · cases hf
  | aliased first a second b =>
    simp only [Check.rename, Check.fault] at hf ⊢
    split at hf
    · next heq => rw [if_pos (by rw [h a, h b, heq])]
    · cases hf
  | sequential slots =>
    have hs : (slots.map move).map (vectorAt old) = slots.map (vectorAt new) := by
      rw [List.map_map]
      exact List.map_congr_left fun slot _ => (h.vectorAt_eq slot).symm
    simpa only [Check.rename, Check.fault, hs] using hf
  | unshiftedByte element shifted =>
    have hs : operandAt new shifted = .flag true ↔ operandAt old (move shifted) = .flag true := by
      rw [h shifted]
      cases operandAt old (move shifted) <;> simp [Operand.unqualified]
    simpa only [Check.rename, Check.fault, h.elementAt_eq, hs] using hf
  | _ =>
    simpa only [Check.rename, Check.fault, h.amount_rename, h.valueAt_eq, h.elementAt_eq,
      h.generalAt_eq, h.rotationAt_eq, h.floatAt_eq] using hf

end Moved

namespace Encoding

theorem getLsbD_word (e : Encoding) (ops : List Operand) (k : Nat) :
    (e.word ops).getLsbD k = true ↔ e.opcode.getLsbD k = true ∨
      ∃ q ∈ e.pieces, (q.2.place (q.1.value ops)).getLsbD k = true := by
  rw [word_eq_pieces]
  exact getLsbD_foldr_or (fun q : Code × Piece => q.2.place (q.1.value ops)) e.opcode e.pieces k

/-- The target encoding, with its slots renamed, has the opcode and the pieces of the encoding and
no further checks. -/
structure Simulates (target e : Encoding) (move : Nat → Nat) : Prop where
  checks : ∀ c ∈ target.checks, c.rename move ∈ e.checks
  opcode : target.opcode = e.opcode
  pieces : ∀ q ∈ target.pieces, (q.1.rename move, q.2) ∈ e.pieces
  covers : ∀ q ∈ e.pieces, q ∈ target.pieces.map fun r => (r.1.rename move, r.2)

instance (target e : Encoding) (move : Nat → Nat) : Decidable (target.Simulates e move) :=
  decidable_of_iff ((∀ c ∈ target.checks, c.rename move ∈ e.checks) ∧ target.opcode = e.opcode ∧
      (∀ q ∈ target.pieces, (q.1.rename move, q.2) ∈ e.pieces) ∧
      ∀ q ∈ e.pieces, q ∈ target.pieces.map fun r => (r.1.rename move, r.2))
    ⟨fun h => ⟨h.1, h.2.1, h.2.2.1, h.2.2.2⟩, fun h => ⟨h.1, h.2, h.3, h.4⟩⟩

private theorem rename_id_amount (amount : ShiftAmount) : amount.rename id = amount := by
  cases amount <;> rfl

private theorem rename_id_code (c : Code) : c.rename id = c := by
  cases c <;> simp only [Code.rename, rename_id_amount, id, List.map_id]

private theorem rename_id_check (c : Check) : c.rename id = c := by
  cases c <;> simp only [Check.rename, rename_id_amount, id, List.map_id]

namespace Simulates

theorem refl (e : Encoding) : e.Simulates e id where
  checks c hc := by rwa [rename_id_check]
  opcode := rfl
  pieces q hq := by rwa [rename_id_code]
  covers q hq := List.mem_map.mpr ⟨q, hq, by rw [rename_id_code]⟩

variable {target e : Encoding} {move : Nat → Nat} {new old : List Operand}

theorem fault_eq_none (h : target.Simulates e move) (hm : Moved move new old)
    (hf : e.fault old = none) : target.fault new = none := by
  rw [Encoding.fault_eq_none] at hf ⊢
  exact fun c hc => hm.fault_rename (hf _ (h.checks c hc))

theorem word_eq (h : target.Simulates e move) (hm : Moved move new old) :
    target.word new = e.word old := by
  apply BitVec.eq_of_getLsbD_eq
  intro k _
  rw [Bool.eq_iff_iff, getLsbD_word, getLsbD_word, h.opcode]
  refine or_congr_right ⟨?_, ?_⟩
  · rintro ⟨q, hq, hk⟩
    exact ⟨_, h.pieces q hq, by rwa [hm.value_rename]⟩
  · rintro ⟨q, hq, hk⟩
    obtain ⟨r, hr, rfl⟩ := List.mem_map.mp (h.covers q hq)
    exact ⟨r, hr, by rwa [hm.value_rename] at hk⟩

end Simulates

end Encoding

end ScalableVector
