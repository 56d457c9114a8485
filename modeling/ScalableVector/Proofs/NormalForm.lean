import ScalableVector.Proofs.Renaming

/-!
# Normal forms

Some instructions are other names for an instruction with its operands in other slots. The normal
form of a call names the instruction that stands for all of them, with addresses taken apart and
predicates without their qualifiers. It is accepted with the word of the call.
-/

namespace ScalableVector

/-- Another name for an instruction. The slots say where the operands of that instruction stand. -/
structure Alias where
  name : String
  target : String
  slots : List Nat

namespace Alias

def all : List Alias :=
  [⟨"MovR", "Dup", [0, 1, 2]⟩, ⟨"MovImm", "DupImm", [0, 1, 2, 3]⟩, ⟨"Fmov", "Fdup", [0, 1, 2]⟩,
    ⟨"Mov", "Orr", [0, 1, 1]⟩, ⟨"MovMerge", "Sel", [0, 1, 2, 3, 1]⟩,
    ⟨"PNot", "PEor", [0, 1, 2, 1]⟩, ⟨"PMovMerge", "PSel", [0, 1, 2, 0]⟩,
    ⟨"PMovZero", "PAnd", [0, 1, 2, 2]⟩, ⟨"PMovsZero", "Ands", [0, 1, 2, 2]⟩,
    ⟨"PMov", "POrr", [0, 1, 1, 1]⟩, ⟨"PMovs", "Orrs", [0, 1, 1, 1]⟩,
    ⟨"Facle", "Facge", [0, 1, 2, 4, 3]⟩, ⟨"Faclt", "Facgt", [0, 1, 2, 4, 3]⟩]

def ofName? (name : String) : Option Alias := all.find? fun a => a.name = name

/-- Where a slot of the instruction stands among the given number of operands. -/
def move (a : Alias) (count slot : Nat) : Nat := a.slots.getD slot count

end Alias

/-- The spelling under the first of all names, with predicates compared by their number. -/
def Spelling.normal (s : Spelling) : Spelling :=
  match Alias.ofName? s.name with
  | some a => ⟨a.target, a.slots.map fun slot => (operandAt s.operands slot).unqualified⟩
  | none => ⟨s.name, s.operands.map Operand.unqualified⟩

def Call.normalForm (c : Call) : Spelling := c.resolved.normal

/-- The alias stands for one template as the other: both encode the same, up to the slots. -/
structure Alias.Renames (a : Alias) (t u : Template) : Prop where
  name : u.name = a.target
  signature : u.signature.map .unqualified =
    a.slots.map fun slot => (t.signature.getD slot .flag).unqualified
  encoding : u.encoding.Simulates t.encoding (a.move t.signature.length)

instance (a : Alias) (t u : Template) : Decidable (a.Renames t u) :=
  decidable_of_iff (u.name = a.target ∧
      (u.signature.map .unqualified =
        a.slots.map fun slot => (t.signature.getD slot .flag).unqualified) ∧
      u.encoding.Simulates t.encoding (a.move t.signature.length))
    ⟨fun h => ⟨h.1, h.2.1, h.2.2⟩, fun h => ⟨h.1, h.2, h.3⟩⟩

namespace Catalogue

def templates : List Template :=
  (instructions.filter (·.layout.isDirect)).flatMap Instruction.templates

/-- The templates that have no further name. -/
def canonical : List Template := templates.filter fun t => (Alias.ofName? t.name).isNone

theorem exists_renames :
    ∀ t ∈ templates, ∀ a ∈ Alias.ofName? t.name, ∃ u ∈ canonical, a.Renames t u := by
  decide +kernel

private theorem mem_templates_of_direct {i : Instruction} (hi : i ∈ instructions)
    (hd : i.layout.isDirect = true) {t : Template} (ht : t ∈ i.templates) : t ∈ templates :=
  List.mem_flatMap.mpr ⟨i, List.mem_filter.mpr ⟨hi, hd⟩, ht⟩

theorem mem_templates {i : Instruction} (hi : i ∈ instructions) {t : Template}
    (ht : t ∈ i.templates) : t ∈ templates := by
  rcases List.mem_append.mp hi with hf | ho
  · obtain ⟨f, -, hf⟩ := List.mem_flatMap.mp hf
    obtain ⟨entry, -, rfl⟩ := List.mem_map.mp hf
    exact mem_templates_of_direct hi rfl ht
  · rcases List.mem_cons.mp ho with rfl | ho
    · exact mem_templates_of_direct hi rfl ht
    · obtain ⟨a, ha, ho⟩ := List.mem_flatMap.mp ho
      have hmem {j : Instruction} (hj : j ∈ a.instructions) : j ∈ instructions :=
        List.mem_append.mpr (.inr (List.mem_cons_of_mem _ (List.mem_flatMap.mpr ⟨a, ha, hj⟩)))
      have himm : a.withImmediate ∈ a.instructions := List.mem_cons_self
      have hreg : a.withRegister ∈ a.instructions := List.mem_cons_of_mem _ List.mem_cons_self
      simp only [Transfer.Access.instructions, List.mem_cons, List.not_mem_nil, or_false] at ho
      rcases ho with rfl | rfl | rfl
      · exact mem_templates_of_direct hi rfl ht
      · exact mem_templates_of_direct hi rfl ht
      · rcases List.mem_cons.mp ht with rfl | ht
        · exact mem_templates_of_direct (hmem hreg) rfl (List.mem_singleton_self _)
        · cases List.mem_singleton.mp ht
          exact mem_templates_of_direct (hmem himm) rfl (List.mem_singleton_self _)

end Catalogue

namespace Template

def unqualified (t : Template) : Template :=
  { t with signature := t.signature.map .unqualified }

theorem trimmed_unqualified (t : Template) : t.unqualified.trimmed = t.trimmed :=
  t.encoding.trimmed_unqualified t.signature

variable {t u : Template} {ops : List Operand} {w : Word}

private theorem moved_map_unqualified (ops : List Operand) :
    Moved id (ops.map Operand.unqualified) ops := by
  intro slot
  rw [operandAt, operandAt, List.getD_eq_getElem?_getD, List.getD_eq_getElem?_getD,
    List.getElem?_map, id]
  cases ops[slot]? <;> rfl

private theorem moved_slots (a : Alias) (ops : List Operand) :
    Moved (a.move ops.length) (a.slots.map fun slot => (operandAt ops slot).unqualified) ops := by
  intro slot
  rw [Alias.move, operandAt, List.getD_eq_getElem?_getD, List.getD_eq_getElem?_getD,
    List.getElem?_map]
  cases a.slots[slot]? with
  | some s => rfl
  | none =>
    rw [Option.getD_none, operandAt, List.getD_eq_getElem?_getD,
      List.getElem?_eq_none (Nat.le_refl _)]
    rfl

theorem Yields.normal (h : t.Yields ops w) : t.unqualified.Yields (ops.map .unqualified) w where
  typed := by
    rw [unqualified, ← h.typed, List.map_map, List.map_map]
    exact List.map_congr_left fun o _ => o.kind_unqualified
  accepted := (Encoding.Simulates.refl _).fault_eq_none (moved_map_unqualified ops) h.accepted
  word := ((Encoding.Simulates.refl _).word_eq (moved_map_unqualified ops)).trans h.word

private theorem kind_operandAt_eq (h : ops.map Operand.kind = t.signature) (slot : Nat) :
    (operandAt ops slot).kind = t.signature.getD slot .flag := by
  rw [← h, operandAt, List.getD_eq_getElem?_getD, List.getD_eq_getElem?_getD, List.getElem?_map]
  cases ops[slot]? <;> rfl

theorem Yields.renamed (h : t.Yields ops w) {a : Alias} (ha : a.Renames t u) :
    u.unqualified.Yields (a.slots.map fun slot => (operandAt ops slot).unqualified) w := by
  have hlen : ops.length = t.signature.length := by rw [← h.typed, List.length_map]
  have hm := moved_slots a ops
  rw [hlen] at hm
  refine ⟨?_, ha.encoding.fault_eq_none hm h.accepted, (ha.encoding.word_eq hm).trans h.word⟩
  rw [unqualified, ha.signature, List.map_map]
  apply List.map_congr_left
  intro slot _
  rw [← kind_operandAt_eq h.typed]
  exact (operandAt ops slot).kind_unqualified

end Template

/-- The normal form of an accepted call is accepted with the same word. -/
theorem Call.exists_canonical {c : Call} {w : Word} (hc : c.instruction ∈ Catalogue.instructions)
    (h : c.encode .all = .ok w) :
    ∃ t ∈ Catalogue.canonical, t.name = c.normalForm.name ∧
      t.unqualified.Yields c.normalForm.operands w := by
  obtain ⟨t, ht, hname, hy⟩ := c.exists_template hc h
  replace ht := Catalogue.mem_templates hc ht
  rw [normalForm, Spelling.normal, ← hname]
  cases ha : Alias.ofName? t.name with
  | none =>
    exact ⟨t, List.mem_filter.mpr ⟨ht, by rw [ha]; rfl⟩, rfl, hy.normal⟩
  | some a =>
    obtain ⟨u, hu, hr⟩ := Catalogue.exists_renames t ht a ha
    exact ⟨u, hu, hr.name, hy.renamed hr⟩

end ScalableVector
