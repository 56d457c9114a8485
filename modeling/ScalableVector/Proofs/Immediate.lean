import ScalableVector.Proofs.Gather
import ScalableVector.Proofs.Names

/-!
# Immediates

Every instruction with an immediate accepts an interval of numbers, or the multiples of a factor in
it, and the immediate can be read off the word: its bits are put together and extended with zeros or
with the sign.
-/

namespace ScalableVector

inductive Reading
  | unsigned (runs : List Piece)
  | signed (runs : List Piece)
  /-- The runs hold the quotient by the factor, with its sign. -/
  | multiple (factor : Nat) (runs : List Piece)
  /-- The runs hold an index above a mark for the element size. -/
  | lane (size : ElementSize) (runs : List Piece)
  deriving DecidableEq

/-- The numbers from `lo` to `hi` that are accepted, and how the word holds them. -/
structure ImmediateRule where
  lo : Int
  hi : Int
  reading : Reading

inductive ImmediateRules
  | always (rule : ImmediateRule)
  | bySize (table : List (ElementSize × ImmediateRule))

/-- An immediate of some instructions: its slot, the word for it in messages, and its rules. -/
structure Immediate where
  names : List String
  slot : Nat
  what : String
  rules : ImmediateRules

def runsWidth (runs : List Piece) : Nat := (runs.map Piece.width).sum

def gatherSigned (w : Word) (runs : List Piece) : Int :=
  (BitVec.ofNat (runsWidth runs) (gather w runs)).toInt

def Reading.Recovers (w : Word) (v : Int) : Reading → Prop
  | unsigned runs => (gather w runs : Int) = v
  | signed runs => gatherSigned w runs = v
  | multiple factor runs => gatherSigned w runs * factor = v
  | lane size runs =>
    let n := gather w runs
    -- the lowest set bit tells the size, and the bits above it are the index
    n.testBit size.code.toNat = true ∧ (∀ k < size.code.toNat, n.testBit k = false) ∧
      ((n >>> (size.code.toNat + 1) : Nat) : Int) = v

def Reading.size? : Reading → Option ElementSize
  | lane size _ => some size
  | _ => none

def ImmediateRule.Admits (rule : ImmediateRule) (v : Int) : Prop :=
  rule.lo ≤ v ∧ v ≤ rule.hi ∧
    match rule.reading with
    | .multiple factor _ => (factor : Int) ∣ v
    | _ => True

def ImmediateRules.at? (size : ElementSize) : ImmediateRules → Option ImmediateRule
  | always rule => some rule
  | bySize table => table.lookup size

namespace Immediate

/-- The offset of a load or store of several registers, which counts their number. -/
def structureOffset (count : Nat) (names : List String) : Immediate :=
  ⟨names, count + 2, "offset", .always ⟨-8 * count, 7 * count, .multiple count [⟨0, 4, 16⟩]⟩⟩

def all : List Immediate :=
  [⟨["DupIndexed"], 3, "index", .bySize (ElementSizes.every.map fun size =>
      (size, ⟨0, 512 / size.bits - 1, .lane size [⟨0, 5, 16⟩, ⟨5, 2, 22⟩]⟩))⟩,
    ⟨["DupImm", "MovImm"], 2, "immediate", .always ⟨-128, 127, .signed [⟨0, 8, 5⟩]⟩⟩,
    ⟨["ExtConstructive", "ExtDestructive"], 3, "index",
      .always ⟨0, 255, .unsigned [⟨0, 3, 10⟩, ⟨3, 5, 16⟩]⟩⟩,
    ⟨["Index", "IndexImmReg"], 2, "start", .always ⟨-16, 15, .signed [⟨0, 5, 5⟩]⟩⟩,
    ⟨["Index", "IndexRegImm"], 3, "increment", .always ⟨-16, 15, .signed [⟨0, 5, 16⟩]⟩⟩,
    ⟨["Addvl", "Addpl"], 2, "immediate", .always ⟨-32, 31, .signed [⟨0, 6, 5⟩]⟩⟩,
    ⟨["Rdvl"], 1, "immediate", .always ⟨-32, 31, .signed [⟨0, 6, 5⟩]⟩⟩,
    ⟨["CmpeqImm", "CmpneImm", "CmpgtImm", "CmpgeImm", "CmpltImm", "CmpleImm"], 4, "immediate",
      .always ⟨-16, 15, .signed [⟨0, 5, 16⟩]⟩⟩,
    ⟨["CmphiImm", "CmphsImm", "CmploImm", "CmplsImm"], 4, "immediate",
      .always ⟨0, 127, .unsigned [⟨0, 7, 14⟩]⟩⟩,
    ⟨["FcmlaIndexed"], 4, "index", .bySize [(.half, ⟨0, 3, .unsigned [⟨0, 2, 19⟩]⟩),
      (.single, ⟨0, 1, .unsigned [⟨0, 1, 20⟩]⟩)]⟩,
    ⟨["Ftmad"], 4, "immediate", .always ⟨0, 7, .unsigned [⟨0, 3, 16⟩]⟩⟩,
    ⟨["Ptrue", "Ptrues"], 2, "pattern", .always ⟨0, 31, .unsigned [⟨0, 5, 5⟩]⟩⟩,
    ⟨["LdrP", "LdrZ"], 2, "offset", .always ⟨-256, 255, .signed [⟨0, 3, 10⟩, ⟨3, 6, 16⟩]⟩⟩,
    ⟨["Ld1bImm", "Ld1sbImm", "Ld1hImm", "Ld1shImm", "Ld1wImm", "Ld1swImm", "Ld1dImm", "St1bImm",
      "St1hImm", "St1wImm", "St1dImm"], 4, "offset", .always ⟨-8, 7, .signed [⟨0, 4, 16⟩]⟩⟩,
    structureOffset 2 ["Ld2b", "Ld2h", "Ld2w", "Ld2d", "St2b", "St2h", "St2w", "St2d"],
    structureOffset 3 ["Ld3b", "Ld3h", "Ld3w", "Ld3d", "St3b", "St3h", "St3w", "St3d"],
    structureOffset 4 ["Ld4b", "Ld4h", "Ld4w", "Ld4d", "St4b", "St4h", "St4w", "St4d"]]

end Immediate

namespace ImmediateRule

def checks (rule : ImmediateRule) (what : String) (slot : Nat) : List Check :=
  match rule.reading with
  | .unsigned _ | .signed _ => [.bounds what slot rule.lo rule.hi]
  | .multiple factor _ => [.bounds what slot rule.lo rule.hi, .multiple what slot factor]
  | .lane .. => [.lane 0 slot]

def code (rule : ImmediateRule) (slot : Nat) : Code :=
  match rule.reading with
  | .unsigned _ | .signed _ => .operand slot
  | .multiple factor _ => .quotient slot factor
  | .lane .. => .lane 0 slot

def runs (rule : ImmediateRule) : List Piece :=
  match rule.reading with
  | .unsigned runs | .signed runs | .multiple _ runs | .lane _ runs => runs

def fitsRuns (rule : ImmediateRule) : Bool :=
  let width := runsWidth rule.runs
  match rule.reading with
  | .unsigned _ => decide (width ≤ 32 ∧ 0 ≤ rule.lo ∧ rule.hi < (2 ^ width : Nat))
  | .signed _ => decide (0 < width ∧ width ≤ 32 ∧ -(2 ^ (width - 1) : Nat) ≤ rule.lo ∧
      rule.hi < (2 ^ (width - 1) : Nat))
  | .multiple factor _ => decide (0 < width ∧ width ≤ 32 ∧ 0 < factor ∧
      -(2 ^ (width - 1) : Nat) * factor ≤ rule.lo ∧ rule.hi < (2 ^ (width - 1) : Nat) * factor)
  | .lane size _ => decide (size ∈ ElementSizes.every ∧ rule.lo = 0 ∧
      rule.hi = Check.lastLane size ∧
      rule.hi * (2 ^ (size.code.toNat + 1) : Nat) + (2 ^ size.code.toNat : Nat) <
        (2 ^ width : Nat))

/-- An encoding follows the rule. -/
def Governs (rule : ImmediateRule) (what : String) (slot : Nat) (signature : List OperandKind)
    (e : Encoding) : Prop :=
  e.checks.filter (slot ∈ ·.slots) = rule.checks what slot ∧
    (∃ f ∈ e.fields, f.code = rule.code slot ∧
      (f.trim (e.support signature f.code)).Holds (runsWidth rule.runs) rule.runs) ∧
    rule.fitsRuns = true

instance (rule : ImmediateRule) (what : String) (slot : Nat) (signature : List OperandKind)
    (e : Encoding) : Decidable (rule.Governs what slot signature e) :=
  inferInstanceAs (Decidable (_ ∧ (∃ f ∈ e.fields, _ ∧ Field.Holds _ _ _) ∧ _))

variable {rule : ImmediateRule} {what : String} {slot : Nat} {ops : List Operand} {e : Encoding}
  {signature : List OperandKind}

private theorem fault_checks (hfits : rule.fitsRuns = true)
    (hsize : ∀ size ∈ rule.reading.size?, elementAt ops 0 = size) :
    (∀ c ∈ rule.checks what slot, c.fault ops = none) ↔ rule.Admits (valueAt ops slot) := by
  obtain ⟨lo, hi, reading⟩ := rule
  cases reading with
  | unsigned runs | signed runs =>
    simp only [checks, List.forall_mem_singleton, Check.fault, Shift.boundsFault_eq_none, Admits,
      and_true]
  | multiple factor runs =>
    have hmultiple : Check.fault ops (.multiple what slot factor) = none ↔
        (factor : Int) ∣ valueAt ops slot := by
      rw [Check.fault]
      split <;> simp_all
    simp only [checks, List.forall_mem_cons, hmultiple, Admits]
    simp [Check.fault, Shift.boundsFault_eq_none, and_assoc]
  | lane size runs =>
    have hlane := (of_decide_eq_true hfits).2
    simp only at hlane
    simp only [checks, List.forall_mem_singleton, Check.fault, Shift.boundsFault_eq_none, Admits,
      and_true, hsize size rfl, hlane.1, hlane.2.1]

private theorem gatherSigned_eq {w : Word} {runs : List Piece} {v : Int}
    (hpos : 0 < runsWidth runs) (hle : runsWidth runs ≤ 32)
    (hw : gather w runs = (BitVec.ofInt 32 v).toNat % 2 ^ runsWidth runs)
    (hlo : -(2 ^ (runsWidth runs - 1) : Nat) ≤ v) (hhi : v < (2 ^ (runsWidth runs - 1) : Nat)) :
    gatherSigned w runs = v := by
  obtain ⟨k, hk⟩ : ∃ k, runsWidth runs = k + 1 := ⟨runsWidth runs - 1, by omega⟩
  rw [hk, Nat.add_sub_cancel] at hlo hhi
  rw [gatherSigned, hw, hk]
  exact toInt_ofInt_mod (by omega) hlo hhi

/-- A mark below an index is the lowest set bit. -/
private theorem testBit_mark {n j k : Nat} (h : n = j * 2 ^ (k + 1) + 2 ^ k) :
    n.testBit k = true ∧ (∀ i < k, n.testBit i = false) ∧ n >>> (k + 1) = j := by
  have hlt : 2 ^ k < 2 ^ (k + 1) := Nat.pow_lt_pow_right (by decide) (Nat.lt_succ_self k)
  have hmod : n % 2 ^ (k + 1) = 2 ^ k := by
    rw [h, Nat.mul_add_mod_self_right, Nat.mod_eq_of_lt hlt]
  have hbit {i : Nat} (hi : i < k + 1) : n.testBit i = decide (k = i) := by
    have hlow := Nat.testBit_mod_two_pow n (k + 1) i
    rw [hmod, Nat.testBit_two_pow, decide_eq_true hi, Bool.true_and] at hlow
    exact hlow.symm
  refine ⟨?_, ?_, ?_⟩
  · rw [hbit (Nat.lt_succ_self k), decide_eq_true rfl]
  · intro i hi
    rw [hbit (by omega), decide_eq_false (by omega)]
  · rw [Nat.shiftRight_eq_div_pow, h, Nat.add_comm, Nat.add_mul_div_right _ _ (by omega),
      Nat.div_eq_of_lt hlt, Nat.zero_add]

private theorem toNat_laneBits_mod {size : ElementSize} (hs : size ∈ ElementSizes.every)
    {j width : Nat} (hj : (j : Int) ≤ Check.lastLane size)
    (htop : Check.lastLane size * (2 ^ (size.code.toNat + 1) : Nat) +
      (2 ^ size.code.toNat : Nat) < (2 ^ width : Nat)) :
    (laneBits size (BitVec.ofInt 32 j)).toNat % 2 ^ width =
      j * 2 ^ (size.code.toNat + 1) + 2 ^ size.code.toNat := by
  have hcode : laneCode size j =
      (j * 2 ^ (size.code.toNat + 1) + 2 ^ size.code.toNat : Nat) := by
    simp only [laneCode, Nat.shiftLeft_eq, Nat.pow_succ, Nat.one_mul, Nat.mul_comm 2]
    rfl
  have hmono : (j : Int) * (2 ^ (size.code.toNat + 1) : Nat) ≤
      Check.lastLane size * (2 ^ (size.code.toNat + 1) : Nat) :=
    Int.mul_le_mul_of_nonneg_right hj (Int.natCast_nonneg _)
  have hbits := toNat_laneBits hs ⟨Int.natCast_nonneg j, hj⟩
  rw [hcode, Int.ofNat_inj] at hbits
  rw [hbits, Nat.mod_eq_of_lt (by omega)]

private theorem Governs.recovers (h : rule.Governs what slot signature e)
    (hs : (e.trimmed signature).Separate) (ht : ops.map Operand.kind = signature)
    (hf : e.fault ops = none) (hsize : ∀ size ∈ rule.reading.size?, elementAt ops 0 = size)
    (hv : rule.Admits (valueAt ops slot)) :
    rule.reading.Recovers (e.word ops) (valueAt ops slot) := by
  obtain ⟨-, ⟨f, hmem, hcode, hholds⟩, hfits⟩ := h
  have hword := Encoding.gather_word hs ht hf hmem hholds
  rw [hcode] at hword
  obtain ⟨lo, hi, reading⟩ := rule
  obtain ⟨hlo, hhi, hfactor⟩ := hv
  generalize hvalue : valueAt ops slot = v at hlo hhi hfactor ⊢
  cases reading with
  | unsigned runs =>
    obtain ⟨hwidth, h0, htop⟩ : runsWidth runs ≤ 32 ∧ 0 ≤ lo ∧ hi < (2 ^ runsWidth runs : Nat) :=
      of_decide_eq_true hfits
    have hgather : gather (e.word ops) runs =
        (BitVec.ofInt 32 v).toNat % 2 ^ runsWidth runs := by
      rw [← hvalue]
      exact hword
    rw [Reading.Recovers, hgather]
    exact toNat_ofInt_mod hwidth (Int.le_trans h0 hlo) (Int.lt_of_le_of_lt hhi htop)
  | signed runs =>
    obtain ⟨hpos, hwidth, hbottom, htop⟩ := of_decide_eq_true hfits
    have hgather : gather (e.word ops) runs =
        (BitVec.ofInt 32 v).toNat % 2 ^ runsWidth runs := by
      rw [← hvalue]
      exact hword
    exact gatherSigned_eq hpos hwidth hgather (Int.le_trans hbottom hlo)
      (Int.lt_of_le_of_lt hhi htop)
  | multiple factor runs =>
    obtain ⟨hpos, hwidth, hfactor0, hbottom, htop⟩ := of_decide_eq_true hfits
    obtain ⟨q, rfl⟩ := hfactor
    have hcast : (0 : Int) < factor := Int.ofNat_lt.mpr hfactor0
    have hgather : gather (e.word ops) runs =
        (BitVec.ofInt 32 q).toNat % 2 ^ runsWidth runs := by
      rw [← Int.mul_tdiv_cancel_left q (show (factor : Int) ≠ 0 by omega), ← hvalue]
      exact hword
    rw [Int.mul_comm] at hlo hhi
    have hquotient : gatherSigned (e.word ops) runs = q := gatherSigned_eq hpos hwidth hgather
      (Int.le_of_mul_le_mul_right (Int.le_trans hbottom hlo) hcast)
      (Int.lt_of_mul_lt_mul_right (Int.lt_of_le_of_lt hhi htop) (Int.le_of_lt hcast))
    rw [Reading.Recovers, hquotient, Int.mul_comm]
  | lane size runs =>
    obtain ⟨hevery, rfl, rfl, htop⟩ : size ∈ ElementSizes.every ∧ lo = 0 ∧
        hi = Check.lastLane size ∧
        hi * (2 ^ (size.code.toNat + 1) : Nat) + (2 ^ size.code.toNat : Nat) <
          (2 ^ runsWidth runs : Nat) := of_decide_eq_true hfits
    obtain ⟨j, rfl⟩ := Int.eq_ofNat_of_zero_le hlo
    have hgather : gather (e.word ops) runs =
        (laneBits size (BitVec.ofInt 32 j)).toNat % 2 ^ runsWidth runs := by
      rw [← hsize size rfl, ← hvalue]
      exact hword
    rw [toNat_laneBits_mod hevery hhi htop] at hgather
    obtain ⟨hset, hclear, hindex⟩ := testBit_mark hgather
    exact ⟨hset, hclear, congrArg Nat.cast hindex⟩

/-- Where one call is accepted, another one that differs in the immediate only is accepted exactly
if the rule admits its immediate. -/
private theorem Governs.fault_iff (h : rule.Governs what slot signature e) {a b : List Operand}
    (hagree : AgreeExcept slot a b) (ha : e.fault a = none)
    (hsize : ∀ size ∈ rule.reading.size?, elementAt b 0 = size) :
    e.fault b = none ↔ rule.Admits (valueAt b slot) := by
  rw [hagree.fault_eq_none_iff ha, ← fault_checks h.2.2 hsize, ← h.1]
  simp only [List.mem_filter, decide_eq_true_eq, and_imp]

end ImmediateRule

namespace Layout

def encodingsFor (size : ElementSize) : Layout → List Encoding
  | .bySize 0 s own other => if size = s then [own] else [other]
  | l => l.encodings

theorem mem_encodingsFor {l : Layout} {ops read : List Operand} {e : Encoding}
    (h : l.chosen ops = some (e, read)) (he : e ∈ l.encodings) :
    e ∈ l.encodingsFor (elementAt ops 0) := by
  cases l with
  | fixed | byAddress => exact he
  | bySize slot s own other =>
    cases slot with
    | zero =>
      simp only [chosen, Option.some.injEq, Prod.mk.injEq] at h
      rw [← h.1, encodingsFor]
      split <;> exact List.mem_cons_self
    | succ => exact he

end Layout

namespace ImmediateRules

/-- All encodings of a layout follow the rules, and there is a rule for every element size. -/
def Cover (what : String) (slot : Nat) (signature : List OperandKind) (l : Layout) :
    ImmediateRules → Prop
  | always rule =>
    rule.reading.size? = none ∧ ∀ e ∈ l.encodings, rule.Governs what slot signature e
  | bySize table =>
    (∀ e ∈ l.encodings, .size 0 (table.map Prod.fst) ∈ e.checks) ∧
    ∀ entry ∈ table, (∀ size ∈ entry.2.reading.size?, size = entry.1) ∧
      ∀ e ∈ l.encodingsFor entry.1, entry.2.Governs what slot signature e

instance (what : String) (slot : Nat) (signature : List OperandKind) (l : Layout) :
    (rules : ImmediateRules) → Decidable (rules.Cover what slot signature l)
  | always _ => inferInstanceAs (Decidable (_ ∧ ∀ e ∈ l.encodings, _))
  | bySize table => inferInstanceAs (Decidable ((∀ e ∈ l.encodings, _) ∧
      ∀ entry ∈ table, (∀ size ∈ Reading.size? _, _) ∧ ∀ e ∈ l.encodingsFor entry.1, _))

variable {rules : ImmediateRules} {what : String} {slot : Nat} {signature : List OperandKind}
  {l : Layout}

private theorem Cover.exists_rule (h : rules.Cover what slot signature l) {ops : List Operand}
    {e : Encoding} (he : e ∈ l.encodings) (hchosen : l.chosen ops = some (e, ops))
    (hf : e.fault ops = none) :
    ∃ rule, rules.at? (elementAt ops 0) = some rule ∧ rule.Governs what slot signature e ∧
      ∀ size ∈ rule.reading.size?, elementAt ops 0 = size := by
  cases rules with
  | always rule =>
    refine ⟨rule, rfl, h.2 e he, ?_⟩
    intro size hsize
    rw [h.1] at hsize
    cases hsize
  | bySize table =>
    have hcheck := Encoding.fault_eq_none.mp hf _ (h.1 e he)
    have hmem : elementAt ops 0 ∈ table.map Prod.fst := Shift.sizeFault_eq_none.mp hcheck
    obtain ⟨rule, hrule⟩ : ∃ rule, table.lookup (elementAt ops 0) = some rule := by
      cases hlookup : table.lookup (elementAt ops 0) with
      | some rule => exact ⟨rule, rfl⟩
      | none =>
        obtain ⟨entry, hentry, hsize⟩ := List.mem_map.mp hmem
        have hmiss := List.lookup_eq_none_iff.mp hlookup entry hentry
        simp [hsize] at hmiss
    obtain ⟨before, after, htable, -⟩ := List.lookup_eq_some_iff.mp hrule
    have hentry : (elementAt ops 0, rule) ∈ table := by simp [htable]
    obtain ⟨hsizes, hgoverns⟩ := h.2 _ hentry
    refine ⟨rule, hrule, hgoverns e (Layout.mem_encodingsFor hchosen he), ?_⟩
    intro size hsize
    exact (hsizes size hsize).symm

end ImmediateRules

namespace Immediate

private def families : List Family :=
  [Permutation.lane, Permutation.pairExtraction, Permutation.extraction, Constant.immediate,
    Constant.sequence, Constant.sequenceFrom, Constant.sequenceBy, Constant.lengthSum,
    Constant.length, Comparison.signedImmediate, Comparison.unsignedImmediate,
    Predicated.trigonometric, Mask.pattern] ++ Transfer.families

private def instructions : List Instruction :=
  families.flatMap Family.instructions ++ IndexedProduct.instruction ::
    Transfer.accesses.map Transfer.Access.withImmediate

private theorem mem_instructions {i : Instruction} (hi : i ∈ instructions) :
    i ∈ Catalogue.instructions := by
  rcases List.mem_append.mp hi with hi | hi
  · obtain ⟨f, hf, hi⟩ := List.mem_flatMap.mp hi
    refine List.mem_append_left _ (List.mem_flatMap.mpr ⟨f, ?_, hi⟩)
    rcases List.mem_append.mp hf with hf | hf
    · simp only [List.mem_cons, List.not_mem_nil, or_false] at hf
      rcases hf with rfl | rfl | rfl | rfl | rfl | rfl | rfl | rfl | rfl | rfl | rfl | rfl | rfl <;>
        simp [Catalogue.families, Permutation.families, Constant.families, Comparison.families,
          Predicated.families, Mask.families]
    · exact List.mem_append_right _ hf
  · apply List.mem_append_right
    rcases List.mem_cons.mp hi with rfl | hi
    · exact List.mem_cons_self
    · obtain ⟨a, ha, rfl⟩ := List.mem_map.mp hi
      exact List.mem_cons_of_mem _ (List.mem_flatMap.mpr ⟨a, ha, List.mem_cons_self⟩)

private theorem all_cover : ∀ m ∈ all, ∀ name ∈ m.names, ∃ i ∈ instructions,
    i.name = name ∧ (∃ kind ∈ i.signature[m.slot]?, kind ∈ [.int32, .uint32, .pattern]) ∧
      i.layout.isDirect = true ∧ i.layout.selector ≠ some m.slot ∧ m.slot ≠ 0 ∧
      m.rules.Cover m.what m.slot i.signature i.layout := by
  decide +kernel

theorem admits_of_accepted {m : Immediate} (hm : m ∈ all) {c : Call}
    (hc : c.instruction ∈ Catalogue.instructions) (hname : c.instruction.name ∈ m.names) {w : Word}
    (hw : c.Accepted w) :
    ∃ rule, m.rules.at? (elementAt c.operands 0) = some rule ∧
      rule.Admits (valueAt c.operands m.slot) := by
  obtain ⟨i, hi, hiname, -, hdirect, hselector, -, hcover⟩ := all_cover m hm _ hname
  obtain rfl : i = c.instruction := Catalogue.eq_of_name (mem_instructions hi) hc hiname
  have hagree := AgreeExcept.refl m.slot c.operands
  obtain ⟨e, he, hchosen, -⟩ := hagree.chosen hdirect hselector
  have hnone := ((Call.accepted_iff_chosen hc hchosen).mp hw).1
  obtain ⟨rule, hrule, hgoverns, hsize⟩ := hcover.exists_rule he hchosen hnone
  exact ⟨rule, hrule, (hgoverns.fault_iff hagree hnone hsize).mp hnone⟩

/-- A load or store that takes an address with an immediate offset is the one that takes base and
offset. -/
private theorem accepted_of_address {a : Transfer.Access} (ha : a ∈ Transfer.accesses) {c d : Call}
    (hc : c.instruction = a.withAddress) (hd : d.instruction = a.withImmediate) {x : Address}
    (hx : c.operands.getLast? = some (.address x)) (hmode : x.mode = .scalarImmediate)
    (hops : d.operands = c.operands.dropLast ++ [.general x.base, .int32 x.immediate]) (w : Word) :
    c.Accepted w ↔ d.Accepted w := by
  have hmem {i : Instruction} (hi : i ∈ a.instructions) : i ∈ Catalogue.instructions :=
    List.mem_append_right _ (List.mem_cons_of_mem _ (List.mem_flatMap.mpr ⟨a, ha, hi⟩))
  have hci : c.instruction ∈ Catalogue.instructions := by
    rw [hc]
    exact hmem (by simp [Transfer.Access.instructions])
  have hdi : d.instruction ∈ Catalogue.instructions := by
    rw [hd]
    exact hmem (by simp [Transfer.Access.instructions])
  have hlength : c.instruction.signature.length = 3 + 1 := by rw [hc]; rfl
  have haddress : c.instruction.signature.getLast? = some .address := by rw [hc]; rfl
  obtain ⟨y, hy, hfront, hlast⟩ := resolved_of_address hlength haddress
  obtain rfl : x = y := by simpa [hx] using hlast
  have hne : x.mode ≠ .scalarScalar := by
    rw [hmode]
    decide
  rw [Call.accepted_iff_layout hci, Call.accepted_iff_layout hdi, hc, hd, hops, hfront]
  simp only [Transfer.Access.withAddress, Transfer.Access.withImmediate, Layout.encode, hy,
    if_neg hne, if_pos hmode, withOffset]

/-- Where a call is accepted with some immediate, exactly the immediates of its rule are, and the
word gives them back. Addresses with an immediate offset are no different. -/
theorem words_hold_immediate :
    (∀ m ∈ all, ∀ name ∈ m.names, ∃ i ∈ Catalogue.instructions, i.name = name ∧
      (∃ kind ∈ i.signature[m.slot]?, kind ∈ [.int32, .uint32, .pattern]) ∧
      ∀ (c : Call) (w : Word), c.instruction = i → c.Accepted w →
        ∃ rule, m.rules.at? (elementAt c.operands 0) = some rule ∧
          ∀ d : Call, d.instruction = i → AgreeExcept m.slot c.operands d.operands →
            ((∃ v, d.Accepted v) ↔ rule.Admits (valueAt d.operands m.slot)) ∧
            ∀ v, d.Accepted v → rule.reading.Recovers v (valueAt d.operands m.slot)) ∧
    ∀ a ∈ Transfer.accesses, ∀ c d : Call, c.instruction = a.withAddress →
      d.instruction = a.withImmediate → ∀ x : Address, c.operands.getLast? = some (.address x) →
        x.mode = .scalarImmediate →
        d.operands = c.operands.dropLast ++ [.general x.base, .int32 x.immediate] →
        ∀ w, c.Accepted w ↔ d.Accepted w := by
  constructor
  · intro m hm name hname
    obtain ⟨i, hi, hiname, hkind, hdirect, hselector, hslot, hcover⟩ := all_cover m hm name hname
    have hmem := mem_instructions hi
    refine ⟨i, hmem, hiname, hkind, ?_⟩
    rintro c w rfl hw
    obtain ⟨e, he, hchosen, -⟩ := (AgreeExcept.refl m.slot c.operands).chosen hdirect hselector
    have hnone := ((Call.accepted_iff_chosen hmem hchosen).mp hw).1
    obtain ⟨rule, hrule, hgoverns, hsize⟩ := hcover.exists_rule he hchosen hnone
    refine ⟨rule, hrule, ?_⟩
    intro d hd hagree
    -- the immediate does not select the encoding, so that both calls have the same one
    obtain ⟨e', -, hchosen', hd'⟩ := hagree.chosen hdirect hselector
    obtain rfl : e = e' := by simpa [hchosen] using hchosen'
    rw [← hd] at hmem hd'
    have hwords {v : Word} := Call.accepted_iff_chosen hmem hd' (w := v)
    have hsize' : ∀ size ∈ rule.reading.size?, elementAt d.operands 0 = size := by
      intro size h
      rw [← hsize size h, elementAt, elementAt, hagree 0 hslot.symm]
    have hiff := hgoverns.fault_iff hagree hnone hsize'
    constructor
    · simp only [hwords, exists_and_left, exists_eq', and_true, hiff]
    · intro v hv
      obtain ⟨hfault, rfl⟩ := hwords.mp hv
      rw [← hd] at hdirect he hgoverns
      exact hgoverns.recovers (Catalogue.separate_of_direct hmem hdirect he) d.typed hfault hsize'
        (hiff.mp hfault)
  · intro a ha c d hc hd x hx hmode hops w
    exact accepted_of_address ha hc hd hx hmode hops w

private def broadcast (index : UInt32) : Call :=
  ⟨Permutation.lane.instruction ⟨"DupIndexed", "dup", 0x05202000⟩,
    [.element .quad, .vector ⟨1⟩, .vector ⟨2⟩, .uint32 index], rfl⟩

private theorem broadcast_mem (index : UInt32) :
    (broadcast index).instruction ∈ Catalogue.instructions := by
  apply Catalogue.mem_of_family
  · simp [Catalogue.families, Permutation.families]
  · exact List.mem_cons_self

theorem broadcast_words_hold_index :
    (broadcast 0).Accepted 0x05302041 ∧ (¬∃ v, (broadcast 4).Accepted v) ∧
      ∃ v, (broadcast 3).Accepted v ∧ gather v [⟨0, 5, 16⟩, ⟨5, 2, 22⟩] >>> 5 = 3 := by
  have hzero : (broadcast 0).Accepted 0x05302041 := by decide +kernel
  obtain ⟨i, hi, hname, -, h⟩ :=
    words_hold_immediate.1 _ List.mem_cons_self "DupIndexed" List.mem_cons_self
  obtain rfl : i = (broadcast 0).instruction := Catalogue.eq_of_name hi (broadcast_mem 0) hname
  obtain ⟨rule, hrule, hexchange⟩ := h (broadcast 0) _ rfl hzero
  obtain rfl := Option.some.inj hrule
  have hagree (index : UInt32) :
      AgreeExcept 3 (broadcast 0).operands (broadcast index).operands := by
    intro s hs
    match s with
    | 0 | 1 | 2 => rfl
    | 3 => exact absurd rfl hs
    | _ + 4 => rfl
  obtain ⟨hthree, hrecovers⟩ := hexchange (broadcast 3) rfl (hagree 3)
  obtain ⟨hfour, -⟩ := hexchange (broadcast 4) rfl (hagree 4)
  refine ⟨hzero, ?_, ?_⟩
  · rw [hfour]
    exact fun h => absurd h.2.1 (by decide)
  · obtain ⟨v, hv⟩ := hthree.mpr ⟨by decide, by decide, trivial⟩
    exact ⟨v, hv, Int.ofNat.inj (hrecovers v hv).2.2⟩

end Immediate

end ScalableVector
