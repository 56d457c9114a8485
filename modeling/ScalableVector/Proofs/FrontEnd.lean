import ScalableVector.Listing.Basic
import ScalableVector.Proofs.Names
import ScalableVector.Proofs.Readable

/-!
# Lines and calls

A line that is written from the name of an instruction and from texts of its operands does what the
call does. A line that is no call leaves the emitter as it is, and its error tells what is wrong:
the name, the number of operands, or the first operand that cannot be read.
-/

namespace ScalableVector

namespace Line

/-- Each text is read as an operand of its kind, with the given results. -/
inductive Reads : List OperandKind → List Bytes → List Operand → Prop
  | nil : Reads [] [] []
  | cons {kind : OperandKind} {text : Bytes} {o : Operand} {kinds : List OperandKind}
      {texts : List Bytes} {ops : List Operand} (head : Operand.read kind text = .ok o)
      (tail : Reads kinds texts ops) : Reads (kind :: kinds) (text :: texts) (o :: ops)

/-- The text with the given index is the first that is no operand of its kind. -/
inductive Fails : List OperandKind → List Bytes → Nat → ReadError → Prop
  | here {kind : OperandKind} {text : Bytes} {error : ReadError} {kinds : List OperandKind}
      {texts : List Bytes} (head : Operand.read kind text = .error error) :
      Fails (kind :: kinds) (text :: texts) 0 error
  | there {kind : OperandKind} {text : Bytes} {o : Operand} {kinds : List OperandKind}
      {texts : List Bytes} {k : Nat} {error : ReadError} (head : Operand.read kind text = .ok o)
      (tail : Fails kinds texts k error) : Fails (kind :: kinds) (text :: texts) (k + 1) error

theorem Reads.length_eq {kinds : List OperandKind} {texts : List Bytes} {ops : List Operand}
    (h : Reads kinds texts ops) : texts.length = kinds.length := by
  induction h with
  | nil => rfl
  | cons _ _ ih => rw [List.length_cons, List.length_cons, ih]

theorem Reads.typed {kinds : List OperandKind} {texts : List Bytes} {ops : List Operand}
    (h : Reads kinds texts ops) : ops.map Operand.kind = kinds := by
  induction h with
  | nil => rfl
  | cons head _ ih => rw [List.map_cons, Operand.kind_of_read head, ih]

theorem Reads.tidy {kinds : List OperandKind} {texts : List Bytes} {ops : List Operand}
    (h : Reads kinds texts ops) : ∀ t ∈ texts, Text.Tidy t := by
  induction h with
  | nil => exact fun _ ht => by cases ht
  | cons head _ ih => exact List.forall_mem_cons.mpr ⟨Operand.tidy_of_read head, ih⟩

section Step

variable {kind : OperandKind} {text : Bytes} (kinds : List OperandKind) (texts : List Bytes)
  (position : Nat)

private theorem readOperands_cons_error {error : ReadError}
    (h : Operand.read kind text = .error error) :
    readOperands position (kind :: kinds) (text :: texts) = .error (position, error) := by
  rw [readOperands]
  split
  next e he =>
    rw [List.headD_cons, h] at he
    cases he
    rfl
  next o he =>
    rw [List.headD_cons, h] at he
    cases he

private theorem readOperands_cons_ok {o : Operand} (h : Operand.read kind text = .ok o) :
    readOperands position (kind :: kinds) (text :: texts) =
      match readOperands (position + 1) kinds texts with
      | .error e => .error e
      | .ok ops => .ok ⟨o :: ops.1, by rw [List.map_cons, Operand.kind_of_read h, ops.2]⟩ := by
  rw [readOperands]
  split
  next e he =>
    rw [List.headD_cons, h] at he
    cases he
  next o' he =>
    rw [List.headD_cons, h] at he
    cases he
    rfl

end Step

private theorem readOperands_of_reads {kinds : List OperandKind} {texts : List Bytes}
    {ops : List Operand} (h : Reads kinds texts ops) (position : Nat)
    (hops : ops.map Operand.kind = kinds) :
    readOperands position kinds texts = .ok ⟨ops, hops⟩ := by
  induction h generalizing position with
  | nil => rfl
  | cons head _ ih =>
    obtain ⟨-, htail⟩ := List.cons.inj hops
    rw [readOperands_cons_ok _ _ position head, ih (position + 1) htail]

private theorem readOperands_of_fails {kinds : List OperandKind} {texts : List Bytes} {k : Nat}
    {error : ReadError} (h : Fails kinds texts k error) (position : Nat) :
    readOperands position kinds texts = .error (position + k, error) := by
  induction h generalizing position with
  | here head => exact readOperands_cons_error _ _ position head
  | there head _ ih =>
    rw [readOperands_cons_ok _ _ position head, ih (position + 1)]
    dsimp only
    rw [Nat.add_right_comm, Nat.add_assoc]

private theorem reads_or_fails {kinds : List OperandKind} {texts : List Bytes}
    (h : texts.length = kinds.length) :
    (∃ ops, Reads kinds texts ops) ∨ ∃ k error, Fails kinds texts k error := by
  induction kinds generalizing texts with
  | nil =>
    obtain rfl := List.length_eq_zero_iff.mp h
    exact .inl ⟨[], .nil⟩
  | cons kind kinds ih =>
    cases texts with
    | nil => cases h
    | cons text texts =>
      cases head : Operand.read kind text with
      | error error => exact .inr ⟨0, error, .here head⟩
      | ok o =>
        rcases ih (Nat.succ.inj h) with ⟨ops, tail⟩ | ⟨k, error, tail⟩
        · exact .inl ⟨o :: ops, .cons head tail⟩
        · exact .inr ⟨k + 1, error, .there head tail⟩

theorem parse_of_ne_nil {line s : Bytes} (hs : Text.trim (dropComment line) = s)
    (hne : s ≠ []) : parse line = (call s).map some := by
  simp only [parse, hs, List.isEmpty_eq_false_iff.mpr hne]
  rfl

private theorem call_of_known {i : Instruction} (hi : i ∈ Catalogue.instructions) {s : Bytes}
    (hname : Text.lower (Bytes.ofString i.name) = Text.lower (name s)) :
    call s = callOf (name s) i (operands s) := by
  rw [call, Catalogue.findLowered?_eq_some hi hname]

private theorem callOf_of_length {typed : Bytes} {i : Instruction} {texts : List Bytes}
    (h : texts.length ≠ i.signature.length) :
    callOf typed i texts = .error (.operandCount typed i.signature.length texts.length) := by
  rw [callOf, if_pos h]

private theorem callOf_of_fails {typed : Bytes} {i : Instruction} {texts : List Bytes} {k : Nat}
    {error : ReadError} (hlen : texts.length = i.signature.length)
    (h : Fails i.signature texts k error) :
    callOf typed i texts = .error (.operand typed (k + 1) error) := by
  rw [callOf, if_neg (not_not_intro hlen), readOperands_of_fails h 1, Nat.add_comm]

private theorem callOf_of_reads {typed : Bytes} {c : Call} {texts : List Bytes}
    (h : Reads c.instruction.signature texts c.operands) :
    callOf typed c.instruction texts = .ok c := by
  rw [callOf, if_neg (not_not_intro h.length_eq), readOperands_of_reads h 1 c.typed]

theorem callOf_eq_ok_iff {typed : Bytes} {i : Instruction} {texts : List Bytes} {c : Call} :
    callOf typed i texts = .ok c ↔ i = c.instruction ∧ Reads i.signature texts c.operands := by
  constructor
  · intro h
    by_cases hlen : texts.length = i.signature.length
    · rcases reads_or_fails hlen with ⟨ops, hreads⟩ | ⟨k, error, hfails⟩
      · have hcall : callOf typed i texts = .ok ⟨i, ops, hreads.typed⟩ :=
          callOf_of_reads (c := ⟨i, ops, hreads.typed⟩) hreads
        cases hcall.symm.trans h
        exact ⟨rfl, hreads⟩
      · rw [callOf_of_fails hlen hfails] at h
        cases h
    · rw [callOf_of_length hlen] at h
      cases h
  · rintro ⟨rfl, hreads⟩
    exact callOf_of_reads hreads

theorem call_eq_ok_iff {s : Bytes} {c : Call} :
    call s = .ok c ↔ Catalogue.findLowered? (Text.lower (name s)) = some c.instruction ∧
      Reads c.instruction.signature (operands s) c.operands := by
  rw [call]
  cases Catalogue.findLowered? (Text.lower (name s)) with
  | none => simp
  | some i =>
    simp only [callOf_eq_ok_iff, Option.some.injEq]
    constructor
    · rintro ⟨rfl, h⟩
      exact ⟨rfl, h⟩
    · rintro ⟨rfl, h⟩
      exact ⟨rfl, h⟩

/-- A line that is accepted holds a call, or nothing but white space and a comment. -/
theorem parse_eq_ok_iff {line : Bytes} {result : Option Call} :
    parse line = .ok result ↔
      Text.trim (dropComment line) = [] ∧ result = none ∨
      Text.trim (dropComment line) ≠ [] ∧
        ∃ c, call (Text.trim (dropComment line)) = .ok c ∧ result = some c := by
  by_cases hs : Text.trim (dropComment line) = []
  · simp [parse, hs, eq_comm]
  · rw [parse_of_ne_nil rfl hs]
    cases call (Text.trim (dropComment line)) <;> simp [hs, Except.map, eq_comm]

private theorem names_numeric :
    (Catalogue.instructions.all fun i => !(Bytes.ofString i.name).isEmpty &&
      (Number.lowerLetters (Bytes.ofString i.name)).all Number.isNumberByte) = true := by
  decide +kernel

private theorem name_numeric {i : Instruction} (hi : i ∈ Catalogue.instructions) :
    Bytes.ofString i.name ≠ [] ∧ Number.Numeric (Number.lowerLetters (Bytes.ofString i.name)) := by
  have hcheck := List.all_eq_true.mp names_numeric i hi
  rw [Bool.and_eq_true, Bool.not_eq_true', List.isEmpty_eq_false_iff] at hcheck
  exact ⟨hcheck.1, List.all_eq_true.mp hcheck.2⟩

theorem solid_name {typed : Bytes} {i : Instruction}
    (h : Catalogue.findLowered? (Text.lower typed) = some i) : Text.Solid typed := by
  obtain ⟨hi, hlower⟩ := Catalogue.mem_of_findLowered? h
  have hname := Number.numeric_of_lowerLetters rfl (name_numeric hi).2
  rw [← Text.solid_lower, ← hlower, Text.solid_lower]
  exact solid_of_numeric hname

private theorem typed_name {i : Instruction} (hi : i ∈ Catalogue.instructions) {typed : Bytes}
    (h : Number.lowerLetters typed = Number.lowerLetters (Bytes.ofString i.name)) :
    typed ≠ [] ∧ Number.Numeric typed ∧
      Text.lower (Bytes.ofString i.name) = Text.lower typed := by
  obtain ⟨hne, hlower⟩ := name_numeric hi
  have hname := Number.numeric_of_lowerLetters rfl hlower
  have htyped := Number.numeric_of_lowerLetters h hlower
  refine ⟨?_, htyped, ?_⟩
  · rintro rfl
    exact hne (List.map_eq_nil_iff.mp h.symm)
  · rw [Text.lower_ascii fun _ hc => hname.ascii hc, Text.lower_ascii fun _ hc => htyped.ascii hc,
      h]

private theorem not_endsName {typed : Bytes} (h : Number.Numeric typed) :
    ∀ c ∈ typed, endsName c = false := by
  intro c hc
  cases hend : endsName c with
  | false => rfl
  | true =>
    have hnumber := h c hc
    rcases Bool.or_eq_true_iff.mp hend with hb | hb
    all_goals rw [eq_of_beq hb] at hnumber
    all_goals cases hnumber

private theorem parse_written {c : Call} (hi : c.instruction ∈ Catalogue.instructions)
    {typed : Bytes}
    (htyped : Number.lowerLetters typed =
      Number.lowerLetters (Bytes.ofString c.instruction.name))
    {texts : List Bytes} (h : Reads c.instruction.signature texts c.operands) :
    parse (written typed texts) = .ok (some c) := by
  obtain ⟨hne, hnumeric, hlower⟩ := typed_name hi htyped
  have htidy := (solid_of_numeric hnumeric).tidy hne
  obtain ⟨hs, hname, hoperands⟩ := split_written htidy (not_endsName hnumeric) h.tidy
  rw [parse_of_ne_nil rfl hs, call_of_known hi (by rw [hname, hlower]), hname, hoperands,
    callOf_of_reads h]
  rfl

end Line

namespace Listing

open Line (Reads Fails)

variable {σ : Type} [Sink σ]

private theorem step_of_error (e : Emitter σ) {line s : Bytes} {error : LineError}
    (hs : Text.trim (Line.dropComment line) = s) (hne : s ≠ []) (h : Line.call s = .error error) :
    step e line = (e, some (.line error)) := by
  rw [step, Line.parse_of_ne_nil hs hne, h]
  rfl

/-- A line does what the call does that it is written from, for a name in any case of its letters
and for all texts that are read as the operands of the call. A blank line does nothing. Any other
line leaves the emitter as it is and fails: its name is unknown, the number of its operands is not
that of the instruction, or one of the operands cannot be read, in which case the error names the
first of these. -/
theorem step_agrees_with_emit (e : Emitter σ) :
    (∀ (c : Call) (typed : Bytes) (texts : List Bytes),
      c.instruction ∈ Catalogue.instructions →
      Number.lowerLetters typed = Number.lowerLetters (Bytes.ofString c.instruction.name) →
      Reads c.instruction.signature texts c.operands →
        step e (Line.written typed texts) = (e.emit c, (e.emit c).rejection.map .rejected)) ∧
    ∀ line s : Bytes, Text.trim (Line.dropComment line) = s →
      (s = [] → step e line = (e, none)) ∧
      (s ≠ [] →
        (∀ i ∈ Catalogue.instructions,
          Text.lower (Bytes.ofString i.name) ≠ Text.lower (Line.name s)) →
        step e line = (e, some (.line (.unknownInstruction (Line.name s))))) ∧
      (s ≠ [] → ∀ i ∈ Catalogue.instructions,
        Text.lower (Bytes.ofString i.name) = Text.lower (Line.name s) →
        ((Line.operands s).length ≠ i.signature.length →
          step e line = (e, some (.line (.operandCount (Line.name s) i.signature.length
            (Line.operands s).length)))) ∧
        ((Line.operands s).length = i.signature.length →
          (¬∃ ops, Reads i.signature (Line.operands s) ops) →
          ∃ k error, Fails i.signature (Line.operands s) k error ∧
            step e line = (e, some (.line (.operand (Line.name s) (k + 1) error))))) := by
  refine ⟨fun c typed texts hi htyped h => ?_, fun line s hs => ⟨fun hnil => ?_,
    fun hne hunknown => ?_, fun hne i hi hname => ⟨fun hlen => ?_, fun hlen hread => ?_⟩⟩⟩
  · rw [step, Line.parse_written hi htyped h]
  · rw [step, Line.parse, hs, hnil]
    rfl
  · refine step_of_error e hs hne ?_
    rw [Line.call, Catalogue.findLowered?_eq_none hunknown]
  · refine step_of_error e hs hne ?_
    rw [Line.call_of_known hi hname, Line.callOf_of_length hlen]
  · rcases Line.reads_or_fails hlen with hreads | ⟨k, error, hfails⟩
    · exact absurd hreads hread
    · refine ⟨k, error, hfails, step_of_error e hs hne ?_⟩
      rw [Line.call_of_known hi hname, Line.callOf_of_fails hlen hfails]

private def idle : Emitter WordLog := .new .standard .empty

/-- The load of 32-bit values from two vector lengths below `x1`. -/
private def load : Call :=
  ⟨(Transfer.load "Ld1w" "ld1w" Transfer.words).withAddress,
    [.element .single, .vector ⟨3⟩, .predicate .zeroing ⟨2⟩,
      .address (.ofImmediate (.x 1) (-2))], rfl⟩

private theorem load_mem : load.instruction ∈ Catalogue.instructions := by
  refine List.mem_append_right _ (List.mem_cons_of_mem _ (List.mem_flatMap.mpr ?_))
  exact ⟨Transfer.load "Ld1w" "ld1w" Transfer.words, by simp [Transfer.accesses],
    by simp [Transfer.Access.instructions, load]⟩

theorem read_of_toOption {kind : OperandKind} {text : Bytes} {o : Operand}
    (h : (Operand.read kind text).toOption = some o) : Operand.read kind text = .ok o := by
  cases hread : Operand.read kind text with
  | error e => rw [hread] at h; cases h
  | ok o' => rw [hread] at h; cases h; rfl

theorem step_written_load :
    step idle (Bytes.ofString "lD1w S, z3.S, P2/z, [ X1 , #-2, Mul VL ]") =
        (idle.emit load, none) ∧
      (idle.emit load).sink.words = #[0xa54ea823] ∧
      step idle (Bytes.ofString "lD1x s, z3") =
        (idle, some (.line (.unknownInstruction (Bytes.ofString "lD1x")))) ∧
      step idle (Bytes.ofString "lD1w s, z3 // , p2/z, [x1]") =
        (idle, some (.line (.operandCount (Bytes.ofString "lD1w") 4 2))) ∧
      ∃ k error, Fails load.instruction.signature
          (["s", "z3", "p2", "x1"].map Bytes.ofString) k error ∧
        step idle (Bytes.ofString "lD1w s, z3, p2, x1") =
          (idle, some (.line (.operand (Bytes.ofString "lD1w") (k + 1) error))) := by
  obtain ⟨hcall, hline⟩ := step_agrees_with_emit idle
  have hread : Reads load.instruction.signature
      (["S", "z3.S", "P2/z", "[ X1 , #-2, Mul VL ]"].map Bytes.ofString) load.operands :=
    .cons (read_of_toOption (by decide +kernel)) (.cons (read_of_toOption (by decide +kernel))
      (.cons (read_of_toOption (by decide +kernel))
        (.cons (read_of_toOption (by decide +kernel)) .nil)))
  refine ⟨?_, by decide +kernel, ?_, ?_, ?_⟩
  · have h := hcall load (Bytes.ofString "lD1w") _ load_mem (by decide +kernel) hread
    have hwritten : Line.written (Bytes.ofString "lD1w")
        (["S", "z3.S", "P2/z", "[ X1 , #-2, Mul VL ]"].map Bytes.ofString) =
        Bytes.ofString "lD1w S, z3.S, P2/z, [ X1 , #-2, Mul VL ]" := by decide +kernel
    have hrejection : (idle.emit load).rejection = none := by decide +kernel
    rw [hwritten, hrejection] at h
    exact h
  · exact (hline (Bytes.ofString "lD1x s, z3") (Bytes.ofString "lD1x s, z3")
      (by decide +kernel)).2.1 (by decide +kernel) (by decide +kernel)
  · exact ((hline (Bytes.ofString "lD1w s, z3 // , p2/z, [x1]") (Bytes.ofString "lD1w s, z3")
      (by decide +kernel)).2.2 (by decide +kernel) load.instruction load_mem
      (by decide +kernel)).1 (by decide +kernel)
  · have h := ((hline (Bytes.ofString "lD1w s, z3, p2, x1") (Bytes.ofString "lD1w s, z3, p2, x1")
      (by decide +kernel)).2.2 (by decide +kernel) load.instruction load_mem
      (by decide +kernel)).2
    have hoperands : Line.operands (Bytes.ofString "lD1w s, z3, p2, x1") =
        ["s", "z3", "p2", "x1"].map Bytes.ofString := by decide +kernel
    rw [hoperands] at h
    refine h (by decide +kernel) ?_
    intro ⟨_, .cons _ (.cons _ (.cons hpredicate _))⟩
    have hnone : (Operand.read (.predicate .zeroing) (Bytes.ofString "p2")).toOption = none := by
      decide +kernel
    cases hnone.symm.trans (congrArg Except.toOption hpredicate)

end Listing

end ScalableVector
