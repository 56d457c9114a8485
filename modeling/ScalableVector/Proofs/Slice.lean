import ScalableVector.Encoding.Field

/-!
# Slices of a word

An encoding whose pieces do not overlap can be read back: the word holds the opcode in the bits
that no piece reaches, and at the place of every piece the bits of the number it was cut out of.
-/

namespace ScalableVector

theorem getLsbD_foldr_or {α : Type} (f : α → Word) (start : Word) (l : List α) (k : Nat) :
    (l.foldr (fun x w => f x ||| w) start).getLsbD k = true ↔
      start.getLsbD k = true ∨ ∃ x ∈ l, (f x).getLsbD k = true := by
  induction l with
  | nil => simp
  | cons x l ih =>
    rw [List.foldr_cons, BitVec.getLsbD_or, Bool.or_eq_true, ih]
    grind

theorem getLsbD_foldr_or_zero {α : Type} (f : α → Word) (l : List α) (k : Nat) :
    (l.foldr (fun x w => f x ||| w) 0).getLsbD k = true ↔ ∃ x ∈ l, (f x).getLsbD k = true := by
  have hzero : (0 : Word).getLsbD k = false := BitVec.getLsbD_zero
  rw [getLsbD_foldr_or, hzero]
  simp only [Bool.false_eq_true, false_or]

/-- A run of bits that is cut out of a number and placed in a word: `width` bits of the number,
the lowest of them being bit `start`, go to the bits of the word from `lsb` on. -/
structure Piece where
  start : Nat
  width : Nat
  lsb : Nat
  deriving DecidableEq

def Piece.place (p : Piece) (v : Word) : Word :=
  (v.extractLsb' p.start p.width).setWidth 32 <<< p.lsb

def Piece.mask (p : Piece) : Word := (BitVec.allOnes p.width).setWidth 32 <<< p.lsb

theorem Piece.getLsbD_place (p : Piece) (v : Word) (k : Nat) :
    (p.place v).getLsbD k =
      (decide (k < 32) && decide (p.lsb ≤ k) && decide (k - p.lsb < p.width) &&
        v.getLsbD (p.start + (k - p.lsb))) := by
  simp only [Piece.place, BitVec.getLsbD_shiftLeft, BitVec.getLsbD_setWidth,
    BitVec.getLsbD_extractLsb']
  by_cases hk : k < 32 <;> by_cases hl : k < p.lsb <;> simp [hk, hl]
  all_goals grind

private theorem getLsbD_pieceMask (p : Piece) (k : Nat) :
    p.mask.getLsbD k =
      (decide (k < 32) && decide (p.lsb ≤ k) && decide (k - p.lsb < p.width)) := by
  simp only [Piece.mask, BitVec.getLsbD_shiftLeft, BitVec.getLsbD_setWidth,
    BitVec.getLsbD_allOnes]
  by_cases hk : k < 32 <;> by_cases hl : k < p.lsb <;> simp [hk, hl]
  all_goals grind

theorem Piece.place_and_mask (p : Piece) (v : Word) : p.place v &&& p.mask = p.place v := by
  apply BitVec.eq_of_getLsbD_eq
  intro k hk
  rw [BitVec.getLsbD_and, Piece.getLsbD_place, getLsbD_pieceMask]
  grind

theorem Piece.slice_place (p : Piece) (v : Word) (h : p.lsb + p.width ≤ 32) :
    (p.place v).extractLsb' p.lsb p.width = v.extractLsb' p.start p.width := by
  apply BitVec.eq_of_getLsbD_eq
  intro k hk
  have hl : p.lsb + k - p.lsb = k := by omega
  rw [BitVec.getLsbD_extractLsb', BitVec.getLsbD_extractLsb', Piece.getLsbD_place]
  simp [hk, hl]
  omega

/-- The piece that a term places. A term without a mask places all bits that are left of the
number. -/
def Term.piece (t : Term) : Piece := ⟨t.start, t.kept.getD 32, t.lsb⟩

theorem Term.place_eq (t : Term) (v : Word) : t.place v = t.piece.place v := by
  apply BitVec.eq_of_getLsbD_eq
  intro k hk
  obtain ⟨start, kept, lsb⟩ := t
  rw [Piece.getLsbD_place, place, piece]
  cases kept with
  | none =>
    have hlt : k - lsb < 32 := by omega
    simp only [BitVec.getLsbD_shiftLeft, BitVec.getLsbD_ushiftRight, Option.getD_none, hk, hlt,
      decide_true, Bool.true_and, Bool.and_true]
    grind
  | some n =>
    have hlt : k - lsb < 32 := by omega
    simp only [BitVec.getLsbD_shiftLeft, BitVec.getLsbD_and, BitVec.getLsbD_ushiftRight,
      BitVec.getLsbD_ofNat, Nat.one_shiftLeft, Nat.testBit_two_pow_sub_one, Option.getD_some, hk,
      hlt, decide_true, Bool.true_and]
    grind

def Field.pieces (f : Field) : List Piece := f.terms.map Term.piece

def Field.placed (f : Field) (v : Word) : Word := f.pieces.foldr (fun p w => p.place v ||| w) 0

theorem Field.contribution_eq_placed (f : Field) (ops : List Operand) :
    f.contribution ops = f.placed (f.code.value ops) := by
  simp only [contribution, placed, pieces, List.foldr_map, Term.place_eq]

namespace Encoding

def pieces (e : Encoding) : List (Code × Piece) :=
  e.fields.flatMap fun f => f.pieces.map (f.code, ·)

theorem mem_pieces {e : Encoding} {f : Field} (hf : f ∈ e.fields) {p : Piece} (hp : p ∈ f.pieces) :
    (f.code, p) ∈ e.pieces :=
  List.mem_flatMap.mpr ⟨f, hf, List.mem_map.mpr ⟨p, hp, rfl⟩⟩

/-- No two pieces share a bit, none reaches the opcode, and all lie within the word. -/
def Separate (e : Encoding) : Prop :=
  (e.opcode :: e.pieces.map (·.2.mask)).Pairwise (· &&& · = 0) ∧
    ∀ q ∈ e.pieces, q.2.lsb + q.2.width ≤ 32

instance (e : Encoding) : Decidable e.Separate := inferInstanceAs (Decidable (_ ∧ _))

def mask (e : Encoding) : Word := e.pieces.foldr (fun q m => q.2.mask ||| m) 0

private theorem contribution_or (ops : List Operand) (f : Field) (w : Word) :
    f.contribution ops ||| w =
      f.pieces.foldr (fun p m => p.place (f.code.value ops) ||| m) w := by
  rw [Field.contribution_eq_placed, Field.placed]
  induction f.pieces with
  | nil => simp
  | cons p ps ih => rw [List.foldr_cons, List.foldr_cons, BitVec.or_assoc, ih]

theorem word_eq_pieces (e : Encoding) (ops : List Operand) :
    e.word ops = e.pieces.foldr (fun q w => q.2.place (q.1.value ops) ||| w) e.opcode := by
  rw [word, pieces]
  induction e.fields with
  | nil => rfl
  | cons f fs ih =>
    rw [List.foldr_cons, contribution_or, ih, List.flatMap_cons, List.foldr_append,
      List.foldr_map]

private theorem place_and_eq_zero (ops : List Operand) {q : Code × Piece} {m : Word}
    (h : q.2.mask &&& m = 0) : q.2.place (q.1.value ops) &&& m = 0 := by
  rw [← Piece.place_and_mask, BitVec.and_assoc, h]
  exact BitVec.and_zero

private theorem foldr_place_and (ops : List Operand) (m op : Word) (qs : List (Code × Piece))
    (hq : ∀ q ∈ qs, q.2.mask &&& m = 0) :
    qs.foldr (fun q w => q.2.place (q.1.value ops) ||| w) op &&& m = op &&& m := by
  induction qs with
  | nil => rfl
  | cons q qs ih =>
    have hp := place_and_eq_zero ops (hq q List.mem_cons_self)
    rw [List.foldr_cons, BitVec.and_or_distrib_right, hp]
    exact BitVec.zero_or.trans (ih fun q' h => hq q' (List.mem_cons_of_mem _ h))

private theorem foldr_place_and_mask (ops : List Operand) (op : Word) (qs : List (Code × Piece))
    (h : (op :: qs.map (·.2.mask)).Pairwise (· &&& · = 0)) (q : Code × Piece) (hq : q ∈ qs) :
    qs.foldr (fun q w => q.2.place (q.1.value ops) ||| w) op &&& q.2.mask =
      q.2.place (q.1.value ops) := by
  induction qs with
  | nil => cases hq
  | cons r rs ih =>
    simp only [List.map_cons, List.pairwise_cons, List.mem_cons, List.mem_map] at h
    obtain ⟨hop, hr, hrs⟩ := h
    rw [List.foldr_cons, BitVec.and_or_distrib_right]
    rcases List.mem_cons.mp hq with rfl | hq
    · rw [Piece.place_and_mask, foldr_place_and ops _ op rs, hop _ (Or.inl rfl)]
      · exact BitVec.or_zero
      · intro q' h'
        rw [BitVec.and_comm]
        exact hr _ ⟨q', h', rfl⟩
    · rw [place_and_eq_zero ops (hr _ ⟨q, hq, rfl⟩), ih ?_ hq]
      · exact BitVec.zero_or
      · simp only [List.pairwise_cons, List.mem_map]
        exact ⟨fun m hm => hop m (Or.inr hm), hrs⟩

theorem word_and_mask {e : Encoding} (h : e.Separate) (ops : List Operand) {c : Code} {p : Piece}
    (hp : (c, p) ∈ e.pieces) : e.word ops &&& p.mask = p.place (c.value ops) := by
  rw [word_eq_pieces]
  exact foldr_place_and_mask ops e.opcode e.pieces h.1 (c, p) hp

/-- The bits of a word at the place of a piece are the bits of the number. -/
theorem slice_word {e : Encoding} (h : e.Separate) (ops : List Operand) {c : Code} {p : Piece}
    (hp : (c, p) ∈ e.pieces) :
    (e.word ops).extractLsb' p.lsb p.width = (c.value ops).extractLsb' p.start p.width := by
  have hw : p.lsb + p.width ≤ 32 := h.2 _ hp
  rw [← p.slice_place _ hw, ← word_and_mask h ops hp]
  apply BitVec.eq_of_getLsbD_eq
  intro k hk
  simp [getLsbD_pieceMask, hk]
  omega

private theorem and_masks {w : Word} {qs : List (Code × Piece)}
    (h : ∀ q ∈ qs, w &&& q.2.mask = 0) : w &&& qs.foldr (fun q m => q.2.mask ||| m) 0 = 0 := by
  induction qs with
  | nil => exact BitVec.and_zero
  | cons q qs ih =>
    rw [List.foldr_cons, BitVec.and_or_distrib_left, h q List.mem_cons_self]
    exact BitVec.zero_or.trans (ih fun q' h' => h q' (List.mem_cons_of_mem _ h'))

private theorem mask_and_not_masks {q : Code × Piece} {qs : List (Code × Piece)} (hq : q ∈ qs) :
    q.2.mask &&& ~~~qs.foldr (fun q m => q.2.mask ||| m) 0 = 0 := by
  induction qs with
  | nil => cases hq
  | cons r rs ih =>
    rw [List.foldr_cons, BitVec.not_or]
    rcases List.mem_cons.mp hq with rfl | hq
    · rw [← BitVec.and_assoc, BitVec.and_not_self]
      exact BitVec.zero_and
    · rw [BitVec.and_comm (~~~r.2.mask), ← BitVec.and_assoc, ih hq]
      exact BitVec.zero_and

theorem word_and_not_mask {e : Encoding} (h : e.Separate) (ops : List Operand) :
    e.word ops &&& ~~~e.mask = e.opcode := by
  have hop : e.opcode &&& e.mask = 0 := by
    apply and_masks
    intro q hq
    exact (List.pairwise_cons.mp h.1).1 _ (List.mem_map_of_mem hq)
  rw [word_eq_pieces, foldr_place_and]
  · apply BitVec.eq_of_getLsbD_eq
    intro k hk
    have hb := congrArg (fun w : Word => w.getLsbD k) hop
    simp only [BitVec.getLsbD_and, BitVec.getLsbD_not, hk, decide_true, Bool.true_and] at hb ⊢
    revert hb
    cases e.opcode.getLsbD k <;> cases e.mask.getLsbD k <;> simp
  · exact fun q hq => mask_and_not_masks hq

end Encoding

end ScalableVector
