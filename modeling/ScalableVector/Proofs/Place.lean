import ScalableVector.Proofs.Recovery

/-!
# Places of registers

The number of every register of an accepted call can be read off the word: it stands at a place
that the encoding fixes, five bits wide for vectors, scalars and general registers, four for
predicates and three for governing predicates. The later ones of consecutive registers have no bits
of their own and are counted from the first.
-/

namespace ScalableVector

namespace VectorRegister

theorem toNat_next (z : VectorRegister) : z.next.number.toNat = (z.number.toNat + 1) % 32 := by
  have hone : (1 : UInt8).toNat = 1 := rfl
  rw [next, UInt8.toNat_and, UInt8.toNat_add, hone]
  -- a byte that wraps at 256 wraps at 32 as well
  exact (Nat.and_two_pow_sub_one_eq_mod _ 5).trans (by omega)

theorem sequential_cons_iff {z : VectorRegister} {zs : List VectorRegister} :
    sequential (z :: zs) = true ↔
      ∀ k (hk : k < zs.length), zs[k].number.toNat = (z.number.toNat + (k + 1)) % 32 := by
  induction zs generalizing z with
  | nil => simp [sequential]
  | cons y ys ih =>
    have hnext : z.next = y ↔ y.number.toNat = (z.number.toNat + 1) % 32 := by
      rw [← toNat_next, UInt8.toNat_inj, eq_comm, VectorRegister.mk.injEq]
    rw [sequential, Bool.and_eq_true, decide_eq_true_eq, ih, hnext]
    constructor
    · rintro ⟨hy, hys⟩ k hk
      cases k with
      | zero => exact hy
      | succ k =>
        rw [List.getElem_cons_succ, hys k (Nat.lt_of_succ_lt_succ hk), hy]
        omega
    · intro h
      have hy := h 0 (Nat.zero_lt_succ _)
      rw [List.getElem_cons_zero] at hy
      refine ⟨hy, ?_⟩
      intro k hk
      have hlater := h (k + 1) (Nat.succ_lt_succ hk)
      rw [List.getElem_cons_succ] at hlater
      rw [hlater, hy]
      omega

end VectorRegister

def OperandKind.isRegister : OperandKind → Bool
  | .vector | .predicate _ | .scalar | .general => true
  | _ => false

/-- Where a word holds the number of a register: the bits from `lsb` on. The number is some steps
further for the later ones of consecutive registers. -/
structure Place where
  lsb : Nat
  width : Nat
  step : Nat
  deriving DecidableEq

namespace Place

def range (high low : Nat) : Place := ⟨low, high + 1 - low, 0⟩

def bits (p : Place) (w : Word) : Nat :=
  ((w >>> p.lsb) &&& BitVec.ofNat 32 ((1 <<< p.width) - 1)).toNat

/-- The number of the register. Register 0 follows register 31. -/
def read (p : Place) (w : Word) : Nat :=
  if p.step = 0 then p.bits w else (p.bits w + p.step) % 32

theorem bits_eq_slice (p : Place) (w : Word) (h : p.width ≤ 32) :
    p.bits w = (w.extractLsb' p.lsb p.width).toNat := by
  have hlt : 2 ^ p.width - 1 < 2 ^ 32 := by
    have := Nat.pow_le_pow_right (n := 2) (by decide) h
    omega
  rw [bits, Nat.one_shiftLeft, BitVec.toNat_and, BitVec.toNat_ofNat, Nat.mod_eq_of_lt hlt,
    Nat.and_two_pow_sub_one_eq_mod, BitVec.toNat_ushiftRight, BitVec.extractLsb'_toNat]

end Place

theorem toNat_slice_ofInt {v : Int} {width : Nat} (hw : width ≤ 32) (h0 : 0 ≤ v)
    (hv : v < (1 <<< width : Nat)) :
    (((BitVec.ofInt 32 v).extractLsb' 0 width).toNat : Int) = v := by
  rw [Nat.one_shiftLeft] at hv
  have hpow : 2 ^ width ≤ 2 ^ 32 := Nat.pow_le_pow_right (by decide) hw
  rw [BitVec.extractLsb'_toNat, Nat.shiftRight_zero, BitVec.toNat_ofInt, Int.natCast_emod,
    Int.toNat_of_nonneg (Int.emod_nonneg _ (by decide)), Int.emod_eq_of_lt h0 (by omega),
    Int.emod_eq_of_lt h0 hv]

/-- Instructions with the documented places of their registers, by their slots. A register that has
to be another one stands at the place of that one. -/
structure RegisterFormat where
  names : List String
  places : List (Nat × Place)

/-- The formats of all instructions, with addresses taken apart. -/
def registerFormats : List RegisterFormat := [
  -- zm<20:16> zn<9:5> zd<4:0>
  ⟨["Add", "Sub", "Sqadd", "Uqadd", "Sqsub", "Uqsub", "Tbl", "Zip1", "Zip2", "Uzp1", "Uzp2",
      "Trn1", "Trn2", "Fadd", "Fsub", "Fmul", "Ftsmul", "Frecps", "Frsqrts", "Ftssel", "AsrWide",
      "LsrWide", "LslWide", "Mul", "Smulh", "Umulh", "Sqdmulh", "Sqrdmulh", "Eorbt", "Eortb",
      "Saba", "Uaba", "Tbx", "Pmul", "Saddlb", "Saddlt", "Uaddlb", "Uaddlt", "Ssublb", "Ssublt",
      "Usublb", "Usublt", "Sabdlb", "Sabdlt", "Uabdlb", "Uabdlt", "Sqdmullb", "Sqdmullt", "Smullb",
      "Smullt", "Umullb", "Umullt", "Saddlbt", "Ssublbt", "Ssubltb", "Sabalb", "Sabalt", "Uabalb",
      "Uabalt", "Pmullb", "Pmullt", "Bext", "Bdep", "Bgrp", "Addhnb", "Addhnt", "Raddhnb",
      "Raddhnt", "Subhnb", "Subhnt", "Rsubhnb", "Rsubhnt", "Adclb", "Adclt", "Sbclb", "Sbclt"],
    [(1, .range 4 0), (2, .range 9 5), (3, .range 20 16)]⟩,
  ⟨["Histseg", "Smmla", "Usmmla", "Ummla", "And", "Orr", "Eor", "Bic"],
    [(0, .range 4 0), (1, .range 9 5), (2, .range 20 16)]⟩,
  ⟨["Movprfx", "Mov"], [(0, .range 4 0), (1, .range 9 5)]⟩,
  ⟨["FcmlaIndexed"], [(1, .range 4 0), (2, .range 9 5)]⟩,
  -- zm<20:16> zk<9:5> zdn<4:0>
  ⟨["Eor3", "Bsl", "Bcax", "Bsl1n", "Bsl2n", "Nbsl"],
    [(0, .range 4 0), (1, .range 4 0), (2, .range 20 16), (3, .range 9 5)]⟩,
  -- pg<12:10> zm<9:5> zdn<4:0>
  ⟨["Cadd", "Sqcadd", "Ftmad"], [(1, .range 4 0), (2, .range 4 0), (3, .range 9 5)]⟩,
  ⟨["AddPred", "SubPred", "Subr", "Smax", "Umax", "Smin", "Umin", "Sabd", "Uabd", "MulPred",
      "SmulhPred", "UmulhPred", "OrrPred", "EorPred", "AndPred", "BicPred", "AsrPred", "LsrPred",
      "LslPred", "Asrr", "Lsrr", "Lslr", "Sdiv", "Udiv", "Sdivr", "Udivr", "AsrWidePred",
      "LsrWidePred", "LslWidePred", "Shadd", "Uhadd", "Shsub", "Uhsub", "Srhadd", "Urhadd",
      "Shsubr", "Uhsubr", "Addp", "Smaxp", "Umaxp", "Sminp", "Uminp", "SqaddPred", "UqaddPred",
      "SqsubPred", "UqsubPred", "Suqadd", "Usqadd", "Sqsubr", "Uqsubr", "FaddPred", "FsubPred",
      "FmulPred", "Fsubr", "Fmaxnm", "Fminnm", "Fmax", "Fmin", "Fabd", "Fscale", "Fmulx", "Fdivr",
      "Fdiv", "Faddp", "Fmaxnmp", "Fminnmp", "Fmaxp", "Fminp", "Fcadd"],
    [(1, .range 4 0), (2, .range 12 10), (3, .range 4 0), (4, .range 9 5)]⟩,
  ⟨["ExtConstructive"], [(0, .range 4 0), (1, .range 9 5), (2, ⟨5, 5, 1⟩)]⟩,
  ⟨["ExtDestructive"], [(0, .range 4 0), (1, .range 4 0), (2, .range 9 5)]⟩,
  -- pg<12:10> n<9:5> d<4:0>
  ⟨["Abs", "Neg", "Cls", "Clz", "Cnt", "Cnot", "Not", "MovprfxMerge", "Sxtb", "Uxtb", "Sxth",
      "Uxth", "Sxtw", "Uxtw", "Frintn", "Frintp", "Frintm", "Frintz", "Frinta", "Frintx", "Frinti",
      "Frecpx", "Fsqrt", "Fabs", "Fneg", "MovprfxZero", "Uaddv", "Smaxv", "Umaxv", "Sminv", "Uminv",
      "Orv", "Eorv", "Andv", "Saddv", "Faddv", "Fmaxnmv", "Fminnmv", "Fmaxv", "Fminv", "Fcvtnt",
      "Fcvtlt", "Flogb", "Scvtf", "Ucvtf", "Fcvtzs", "Fcvtzu", "Rbit", "Revb", "Revh", "Revw",
      "LastaV", "LastbV", "Cpy", "CpyV", "Compact", "Lasta", "Lastb"],
    [(1, .range 4 0), (2, .range 12 10), (3, .range 9 5)]⟩,
  ⟨["Fadda", "SpliceDestructive", "Clasta", "Clastb", "ClastaV", "ClastbV", "ClastaR",
      "ClastbR"], [(1, .range 4 0), (2, .range 12 10), (3, .range 4 0), (4, .range 9 5)]⟩,
  ⟨["Fcvtxnt"], [(0, .range 4 0), (1, .range 12 10), (2, .range 9 5)]⟩,
  ⟨["SpliceConstructive"], [(1, .range 4 0), (2, .range 12 10), (3, .range 9 5), (4, ⟨5, 5, 1⟩)]⟩,
  -- zm<20:16> pg<12:10> zn<9:5> zd<4:0>
  ⟨["Mla", "Mls", "Fcmla", "Histcnt"],
    [(1, .range 4 0), (2, .range 12 10), (3, .range 9 5), (4, .range 20 16)]⟩,
  ⟨["Mad", "Msb"], [(1, .range 4 0), (2, .range 12 10), (3, .range 20 16), (4, .range 9 5)]⟩,
  -- zm<20:16> pv<13:10> zn<9:5> zd<4:0>
  ⟨["Sel"], [(1, .range 4 0), (2, .range 13 10), (3, .range 9 5), (4, .range 20 16)]⟩,
  ⟨["MovMerge"], [(1, .range 4 0), (2, .range 13 10), (3, .range 9 5)]⟩,
  -- zm<20:16> pg<12:10> zn<9:5> pd<3:0>
  ⟨["Cmpeq", "Cmpne", "Cmpge", "Cmpgt", "Cmphi", "Cmphs", "CmpeqWide", "CmpneWide", "CmpgtWide",
      "CmpgeWide", "CmphiWide", "CmphsWide", "CmpltWide", "CmpleWide", "CmploWide", "CmplsWide",
      "Fcmeq", "Fcmgt", "Fcmge", "Fcmne", "Fcmuo", "Facge", "Facgt", "Match", "Nmatch"],
    [(1, .range 3 0), (2, .range 12 10), (3, .range 9 5), (4, .range 20 16)]⟩,
  ⟨["Facle", "Faclt"], [(1, .range 3 0), (2, .range 12 10), (3, .range 20 16), (4, .range 9 5)]⟩,
  ⟨["CmpeqImm", "CmpneImm", "CmpgtImm", "CmpgeImm", "CmpltImm", "CmpleImm", "FcmgeZero",
      "FcmgtZero", "FcmltZero", "FcmleZero", "FcmeqZero", "FcmneZero", "CmphiImm", "CmphsImm",
      "CmploImm", "CmplsImm"], [(1, .range 3 0), (2, .range 12 10), (3, .range 9 5)]⟩,
  -- rm<20:16> rn<9:5> pd<3:0>
  ⟨["Whilelt", "Whilele", "Whilelo", "Whilels", "Whilege", "Whilegt", "Whilehs", "Whilehi",
      "Whilewr", "Whilerw"], [(1, .range 3 0), (2, .range 9 5), (3, .range 20 16)]⟩,
  ⟨["Ctermeq", "Ctermne"], [(0, .range 9 5), (1, .range 20 16)]⟩,
  -- n<9:5> zd<4:0>
  ⟨["Frecpe", "Frsqrte", "Fexpa", "Dup", "MovR", "Insr", "InsrV", "Rev", "Sunpklo", "Sunpkhi",
      "Uunpklo", "Uunpkhi", "DupIndexed"], [(1, .range 4 0), (2, .range 9 5)]⟩,
  ⟨["DupImm", "MovImm", "Fdup", "Fmov"], [(1, .range 4 0)]⟩,
  -- pm<19:16> pn<8:5> pd<3:0>
  ⟨["PRev"], [(1, .range 3 0), (2, .range 8 5)]⟩,
  ⟨["Punpklo", "Punpkhi"], [(0, .range 3 0), (1, .range 8 5)]⟩,
  ⟨["PZip1", "PZip2", "PUzp1", "PUzp2", "PTrn1", "PTrn2"],
    [(1, .range 3 0), (2, .range 8 5), (3, .range 19 16)]⟩,
  -- b<20:16> a<9:5> zd<4:0>
  ⟨["Index"], [(1, .range 4 0)]⟩,
  ⟨["IndexRegImm"], [(1, .range 4 0), (2, .range 9 5)]⟩,
  ⟨["IndexImmReg"], [(1, .range 4 0), (3, .range 20 16)]⟩,
  ⟨["IndexRegReg"], [(1, .range 4 0), (2, .range 9 5), (3, .range 20 16)]⟩,
  -- rn<20:16> rd<4:0>
  ⟨["Addvl", "Addpl"], [(0, .range 4 0), (1, .range 20 16)]⟩,
  ⟨["Rdvl"], [(0, .range 4 0)]⟩,
  -- pg<12:10> zdn<4:0>
  ⟨["AsrImmPred", "LsrImmPred", "LslImmPred", "Asrd", "Sqshl", "Uqshl", "Srshr", "Urshr",
      "Sqshlu"], [(1, .range 4 0), (2, .range 12 10), (3, .range 4 0)]⟩,
  -- zn<9:5> zd<4:0>
  ⟨["AsrImm", "LsrImm", "LslImm", "Ssra", "Usra", "Srsra", "Ursra", "Sri", "Sli", "Sqshrunb",
      "Sqshrunt", "Sqrshrunb", "Sqrshrunt", "Shrnb", "Shrnt", "Rshrnb", "Rshrnt", "Sqshrnb",
      "Sqshrnt", "Sqrshrnb", "Sqrshrnt", "Uqshrnb", "Uqshrnt", "Uqrshrnb", "Uqrshrnt", "Sqxtnb",
      "Sqxtnt", "Uqxtnb", "Uqxtnt", "Sqxtunb", "Sqxtunt", "Sshllb", "Sshllt", "Ushllb", "Ushllt"],
    [(1, .range 4 0), (2, .range 9 5)]⟩,
  -- pm<19:16> pg<13:10> pn<8:5> pd<3:0>
  ⟨["PAnd", "Ands", "PBic", "Bics", "PEor", "Eors", "POrr", "Orn", "Nor", "Nand", "Orrs",
      "Orns", "Nors", "Nands", "PSel", "Brkpa", "Brkpb", "Brkpas", "Brkpbs"],
    [(0, .range 3 0), (1, .range 13 10), (2, .range 8 5), (3, .range 19 16)]⟩,
  ⟨["PNot", "PMovMerge", "PMovZero", "PMovsZero", "Brka", "Brkas", "Brkb", "Brkbs", "BrkaMerge",
      "BrkbMerge"], [(0, .range 3 0), (1, .range 13 10), (2, .range 8 5)]⟩,
  ⟨["PMov", "PMovs"], [(0, .range 3 0), (1, .range 8 5)]⟩,
  ⟨["Brkn", "Brkns"], [(0, .range 3 0), (1, .range 13 10), (2, .range 8 5), (3, .range 3 0)]⟩,
  -- a predicate in <13:10>, one in <8:5>, pd<3:0>
  ⟨["Pnext"], [(1, .range 3 0), (2, .range 8 5), (3, .range 3 0)]⟩,
  ⟨["Pfirst"], [(0, .range 3 0), (1, .range 8 5), (2, .range 3 0)]⟩,
  ⟨["Ptest"], [(0, .range 13 10), (1, .range 8 5)]⟩,
  ⟨["Pfalse", "Rdffr"], [(0, .range 3 0)]⟩,
  ⟨["RdffrPred", "Rdffrs"], [(0, .range 3 0), (1, .range 8 5)]⟩,
  ⟨["Ptrue", "Ptrues"], [(1, .range 3 0)]⟩,
  ⟨["Wrffr"], [(0, .range 8 5)]⟩,
  ⟨["Setffr"], []⟩,
  -- rm<20:16> pg<12:10> rn<9:5> zt<4:0>
  ⟨["Ld1bImm", "Ld1sbImm", "Ld1hImm", "Ld1shImm", "Ld1wImm", "Ld1swImm", "Ld1dImm", "St1bImm",
      "St1hImm", "St1wImm", "St1dImm"], [(1, .range 4 0), (2, .range 12 10), (3, .range 9 5)]⟩,
  ⟨["Ld1bReg", "Ld1sbReg", "Ld1hReg", "Ld1shReg", "Ld1wReg", "Ld1swReg", "Ld1dReg", "St1bReg",
      "St1hReg", "St1wReg", "St1dReg"],
    [(1, .range 4 0), (2, .range 12 10), (3, .range 9 5), (4, .range 20 16)]⟩,
  -- pg<12:10> rn<9:5> zt<4:0>, where zt is the first of the registers
  ⟨["Ld2b", "Ld2h", "Ld2w", "Ld2d", "St2b", "St2h", "St2w", "St2d"],
    [(0, .range 4 0), (1, ⟨0, 5, 1⟩), (2, .range 12 10), (3, .range 9 5)]⟩,
  ⟨["Ld3b", "Ld3h", "Ld3w", "Ld3d", "St3b", "St3h", "St3w", "St3d"],
    [(0, .range 4 0), (1, ⟨0, 5, 1⟩), (2, ⟨0, 5, 2⟩), (3, .range 12 10), (4, .range 9 5)]⟩,
  ⟨["Ld4b", "Ld4h", "Ld4w", "Ld4d", "St4b", "St4h", "St4w", "St4d"],
    [(0, .range 4 0), (1, ⟨0, 5, 1⟩), (2, ⟨0, 5, 2⟩), (3, ⟨0, 5, 3⟩), (4, .range 12 10),
      (5, .range 9 5)]⟩,
  -- rn<9:5> t<4:0>, of which a predicate takes four bits
  ⟨["LdrP"], [(0, .range 3 0), (1, .range 9 5)]⟩,
  ⟨["LdrZ"], [(0, .range 4 0), (1, .range 9 5)]⟩]

def documentedPlaces (name : String) (slot : Nat) : List Place :=
  registerFormats.flatMap fun g =>
    if name ∈ g.names then (g.places.filter (·.1 = slot)).map Prod.snd else []

theorem mem_documentedPlaces {g : RegisterFormat} (hg : g ∈ registerFormats) {name : String}
    (hn : name ∈ g.names) {slot : Nat} {p : Place} (hp : (slot, p) ∈ g.places) :
    p ∈ documentedPlaces name slot := by
  refine List.mem_flatMap.mpr ⟨g, hg, ?_⟩
  rw [if_pos hn]
  exact List.mem_map.mpr ⟨(slot, p), List.mem_filter.mpr ⟨hp, decide_eq_true rfl⟩, rfl⟩

def Encoding.keepsWidth (e : Encoding) (signature : List OperandKind) (slot width : Nat) : Bool :=
  (e.checkedRanges signature slot).any fun r =>
    decide (0 ≤ r.1) && decide (r.2 < (1 <<< width : Nat))

theorem Encoding.value_of_keepsWidth {e : Encoding} {signature : List OperandKind}
    {ops : List Operand} {slot width : Nat} (ht : ops.map Operand.kind = signature)
    (hf : e.fault ops = none) (h : e.keepsWidth signature slot width = true) :
    0 ≤ valueAt ops slot ∧ valueAt ops slot < (1 <<< width : Nat) := by
  obtain ⟨r, hrange, hlt⟩ := List.any_eq_true.mp h
  simp only [Bool.and_eq_true, decide_eq_true_eq] at hlt
  have hv := value_mem_checkedRange ht hf hrange
  omega

namespace Template

def ownsPlace (t : Template) (slot : Nat) (p : Place) : Bool :=
  p.step == 0 && t.encoding.keepsWidth t.signature slot p.width &&
    t.trimmed.pieces.any fun q => q.1.isOperand slot && decide (q.2 = ⟨0, p.width, p.lsb⟩)

/-- The register in a slot has to be the one that has the place, or to follow it. -/
def sharesPlace (t : Template) (slot : Nat) (p : Place) : Check → Bool
  | .aliased _ s _ b => b == slot && t.ownsPlace s p
  | .sequential (s :: rest) =>
    decide (0 < p.step) && (s :: rest)[p.step]? == some slot &&
      t.signature[s]? == some .vector && t.signature[slot]? == some .vector &&
      t.ownsPlace s { p with step := 0 }
  | _ => false

def hasPlace (t : Template) (slot : Nat) (p : Place) : Bool :=
  t.ownsPlace slot p || t.encoding.checks.any (t.sharesPlace slot p)

/-- The width of the place of a register by its kind: governing predicates are limited to the first
eight. -/
def registerWidth (t : Template) (slot : Nat) : Nat :=
  match t.signature[slot]? with
  | some (.predicate _) => if .governing slot ∈ t.encoding.checks then 3 else 4
  | _ => 5

/-- The registers of the template stand at the places of the format, each with the width of its
kind, but for those in the given slots. -/
def follows (t : Template) (g : RegisterFormat) (except : List Nat) : Bool :=
  (List.range t.signature.length).all fun slot =>
    !(t.signature[slot]?.any OperandKind.isRegister) || except.contains slot ||
      g.places.any fun q =>
        q.1 == slot && q.2.width == t.registerWidth slot && t.hasPlace slot q.2

variable {t : Template} {ops : List Operand} {w : Word} {slot : Nat} {p : Place}

private theorem Yields.value_of_ownsPlace (h : t.Yields ops w) (hs : t.trimmed.Separate)
    (hp : t.ownsPlace slot p = true) : p.step = 0 ∧ valueAt ops slot = p.bits w := by
  simp only [ownsPlace, Bool.and_eq_true, beq_iff_eq, List.any_eq_true, decide_eq_true_eq] at hp
  obtain ⟨⟨hstep, hkeeps⟩, q, hmem, hcode, hpiece⟩ := hp
  have hv := Encoding.value_of_keepsWidth h.typed h.accepted hkeeps
  rw [show q = (Code.operand slot, ⟨0, p.width, p.lsb⟩) from
    Prod.ext (Code.eq_of_isOperand hcode) hpiece] at hmem
  have hwidth : p.width ≤ 32 := Nat.le_trans (Nat.le_add_left _ _) (hs.2 _ hmem)
  refine ⟨hstep, ?_⟩
  rw [Place.bits_eq_slice _ _ hwidth, ← h.word_trimmed, Encoding.slice_word hs ops hmem]
  exact (toNat_slice_ofInt hwidth hv.1 hv.2).symm

private theorem Yields.value_of_sharesPlace (h : t.Yields ops w) (hs : t.trimmed.Separate)
    {c : Check} (hc : c ∈ t.encoding.checks) (hp : t.sharesPlace slot p c = true) :
    valueAt ops slot = p.read w := by
  have hf := Encoding.fault_eq_none.mp h.accepted c hc
  cases c with
  | aliased first s second b =>
    simp only [sharesPlace, Bool.and_eq_true, beq_iff_eq] at hp
    obtain ⟨rfl, hp⟩ := hp
    obtain ⟨hstep, hv⟩ := h.value_of_ownsPlace hs hp
    rw [Place.read, if_pos hstep, ← hv, valueAt, valueAt, Check.aliased_of_fault hf]
  | sequential slots =>
    cases slots with
    | nil => cases hp
    | cons s rest =>
      simp only [sharesPlace, Bool.and_eq_true, beq_iff_eq, decide_eq_true_eq] at hp
      obtain ⟨⟨⟨⟨hpos, hslot⟩, hks⟩, hk⟩, hp⟩ := hp
      obtain ⟨k, hk'⟩ := Nat.exists_eq_succ_of_ne_zero (Nat.ne_of_gt hpos)
      obtain ⟨-, hv⟩ := h.value_of_ownsPlace hs hp
      rw [hk', List.getElem?_cons_succ] at hslot
      obtain ⟨hlt, hget⟩ := List.getElem?_eq_some_iff.mp hslot
      have hseq := Check.sequential_of_fault hf
      rw [List.map_cons] at hseq
      have hnum := VectorRegister.sequential_cons_iff.mp hseq k (by rwa [List.length_map])
      rw [List.getElem_map, hget] at hnum
      rw [value_of_vector (kind_operandAt h.typed hks)] at hv
      have hbits : p.bits w = (vectorAt ops s).number.toNat := (Int.ofNat_inj.mp hv).symm
      rw [value_of_vector (kind_operandAt h.typed hk), hnum, Place.read,
        if_neg (Nat.ne_of_gt hpos), hbits, hk']
  | _ => cases hp

/-- The place of a register gives its number. -/
theorem Yields.value_of_hasPlace (h : t.Yields ops w) (hs : t.trimmed.Separate)
    (hp : t.hasPlace slot p = true) : valueAt ops slot = p.read w := by
  rcases Bool.or_eq_true_iff.mp hp with hown | hshared
  · obtain ⟨hstep, hv⟩ := h.value_of_ownsPlace hs hown
    rw [Place.read, if_pos hstep, hv]
  · obtain ⟨c, hc, hshared⟩ := List.any_eq_true.mp hshared
    exact h.value_of_sharesPlace hs hc hshared

theorem step_of_hasPlace (hp : t.hasPlace slot p = true) :
    p.step = 0 ∨ ∃ slots, .sequential slots ∈ t.encoding.checks ∧ slots[p.step]? = some slot := by
  have own {s : Nat} {q : Place} (h : t.ownsPlace s q = true) : q.step = 0 := by
    simp only [ownsPlace, Bool.and_eq_true, beq_iff_eq] at h
    exact h.1.1
  rcases Bool.or_eq_true_iff.mp hp with hown | hshared
  · exact .inl (own hown)
  · obtain ⟨c, hc, hshared⟩ := List.any_eq_true.mp hshared
    cases c with
    | aliased first s second b =>
      simp only [sharesPlace, Bool.and_eq_true] at hshared
      exact .inl (own hshared.2)
    | sequential slots =>
      cases slots with
      | nil => cases hshared
      | cons s rest =>
        simp only [sharesPlace, Bool.and_eq_true, beq_iff_eq] at hshared
        exact .inr ⟨s :: rest, hc, hshared.1.1.1.2⟩
    | _ => cases hshared

private theorem exists_place_of_follows {g : RegisterFormat} {except : List Nat}
    (h : t.follows g except = true) {kind : OperandKind} (hk : t.signature[slot]? = some kind)
    (hr : kind.isRegister = true) (he : slot ∉ except) :
    ∃ p, (slot, p) ∈ g.places ∧ p.width = t.registerWidth slot ∧ t.hasPlace slot p = true := by
  have hlt : slot < t.signature.length := (List.getElem?_eq_some_iff.mp hk).1
  have hslot := List.all_eq_true.mp h slot (List.mem_range.mpr hlt)
  rw [hk] at hslot
  simp only [Option.any_some, hr, Bool.not_true, Bool.false_or, List.contains_eq_mem, he,
    decide_false, List.any_eq_true, Bool.and_eq_true, beq_iff_eq] at hslot
  obtain ⟨⟨s, p⟩, hmem, ⟨rfl, hwidth⟩, hp⟩ := hslot
  exact ⟨p, hmem, hwidth, hp⟩

end Template

namespace Catalogue

private theorem families_follow : ∀ f ∈ families, ∃ g ∈ registerFormats,
    (Template.mk "" f.signature ⟨f.checks, 0, f.fields⟩).follows g [] = true ∧
      ∀ entry ∈ f.entries, entry.name ∈ g.names := by
  decide +kernel

private theorem accesses_follow : ∀ a ∈ Transfer.accesses, ∀ i ∈ a.instructions,
    ∀ t ∈ i.templates, ∃ g ∈ registerFormats, t.follows g [] = true ∧ t.name ∈ g.names := by
  decide +kernel

private theorem indexedProduct_follows : ∀ t ∈ IndexedProduct.instruction.templates,
    ∃ g ∈ registerFormats, t.follows g [3] = true ∧ t.name ∈ g.names := by
  decide +kernel

private theorem hasPlace_of_indexedProduct {t : Template}
    (ht : t ∈ IndexedProduct.instruction.templates) {ops : List Operand}
    (hf : t.encoding.fault ops = none) :
    t.hasPlace 3 ⟨16, if elementAt ops 0 = .half then 3 else 4, 0⟩ = true := by
  rw [Encoding.fault_eq_none] at hf
  rcases List.mem_cons.mp ht with rfl | ht
  · have hs := Shift.sizeFault_eq_none.mp (hf _ List.mem_cons_self)
    rw [List.mem_singleton.mp hs]
    decide +kernel
  · cases List.mem_singleton.mp ht
    have hs := Shift.sizeFault_eq_none.mp (hf _ List.mem_cons_self)
    rw [List.mem_singleton.mp hs]
    decide +kernel

private theorem exists_format {i : Instruction} (hi : i ∈ instructions) {t : Template}
    (ht : t ∈ i.templates) : ∃ g ∈ registerFormats, t.name ∈ g.names ∧
      (t.follows g [] = true ∨ i = IndexedProduct.instruction ∧ t.follows g [3] = true) := by
  rcases List.mem_append.mp hi with hi | hi
  · obtain ⟨f, hf, hi⟩ := List.mem_flatMap.mp hi
    obtain ⟨entry, he, rfl⟩ := List.mem_map.mp hi
    cases List.mem_singleton.mp ht
    obtain ⟨g, hg, hfollows, hnames⟩ := families_follow f hf
    exact ⟨g, hg, hnames entry he, .inl hfollows⟩
  · rcases List.mem_cons.mp hi with rfl | hi
    · obtain ⟨g, hg, hfollows, hname⟩ := indexedProduct_follows t ht
      exact ⟨g, hg, hname, .inr ⟨rfl, hfollows⟩⟩
    · obtain ⟨a, ha, hi⟩ := List.mem_flatMap.mp hi
      obtain ⟨g, hg, hfollows, hname⟩ := accesses_follow a ha i hi t ht
      exact ⟨g, hg, hname, .inl hfollows⟩

/-- Every register of an accepted call has the place of its format, but for the second source of the
indexed product. -/
theorem exists_place {i : Instruction} (hi : i ∈ instructions) {t : Template}
    (ht : t ∈ i.templates) {ops : List Operand} (hf : t.encoding.fault ops = none) {slot : Nat}
    {kind : OperandKind} (hk : t.signature[slot]? = some kind) (hr : kind.isRegister = true) :
    ∃ p, t.hasPlace slot p = true ∧
      (p ∈ documentedPlaces t.name slot ∧ p.width = t.registerWidth slot ∨
        i = IndexedProduct.instruction ∧ slot = 3 ∧
          p = ⟨16, if elementAt ops 0 = .half then 3 else 4, 0⟩) := by
  obtain ⟨g, hg, hname, hfollows⟩ := exists_format hi ht
  have documented {except : List Nat} (hfollows : t.follows g except = true)
      (he : slot ∉ except) : ∃ p, t.hasPlace slot p = true ∧
        p ∈ documentedPlaces t.name slot ∧ p.width = t.registerWidth slot := by
    obtain ⟨p, hp, hwidth, hplace⟩ := Template.exists_place_of_follows hfollows hk hr he
    exact ⟨p, hplace, mem_documentedPlaces hg hname hp, hwidth⟩
  rcases hfollows with hfollows | ⟨rfl, hfollows⟩
  · obtain ⟨p, hp, hdoc⟩ := documented hfollows List.not_mem_nil
    exact ⟨p, hp, .inl hdoc⟩
  · by_cases hs : slot = 3
    · subst hs
      exact ⟨_, hasPlace_of_indexedProduct ht hf, .inr ⟨rfl, rfl, rfl⟩⟩
    · obtain ⟨p, hp, hdoc⟩ := documented hfollows (by simpa using hs)
      exact ⟨p, hp, .inl hdoc⟩

end Catalogue

end ScalableVector
