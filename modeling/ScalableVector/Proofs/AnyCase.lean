import Mathlib.Data.List.Forall2
import ScalableVector.Proofs.LowerCase

/-!
# Texts in any letter case

A text in lower case may be written with capital letters. A text has a given lower-case form exactly
if it is this form with some letters replaced by their capitals. The letters `i` and `k` are left
out: they are also the lower-case forms of characters outside of ASCII.
-/

namespace ScalableVector.Text

def spells (c b : UInt8) : Bool := b == c || (0x61 ≤ c && c ≤ 0x7a && b == c - 0x20)

theorem spells_iff {c b : UInt8} : spells c b = true ↔
    b = c ∨ 0x61 ≤ c.toNat ∧ c.toNat ≤ 0x7a ∧ b.toNat + 0x20 = c.toNat := by
  simp only [spells, Bool.or_eq_true, beq_iff_eq, Bool.and_eq_true, decide_eq_true_eq,
    UInt8.le_iff_toNat_le, and_assoc, ← UInt8.toNat_inj, UInt8.toNat_sub, UInt8.toNat_ofNat]
  omega

/-- The second text is the first one with some letters replaced by their capitals. -/
def AnyCase (t s : Bytes) : Prop := List.Forall₂ (fun c b => spells c b = true) t s

/-- An ASCII character that is no capital and has no other lower-case relatives than its capital. -/
def isClear (c : UInt8) : Bool :=
  0 < c && c < 0x80 && !(0x41 ≤ c && c ≤ 0x5a) && c != 0x69 && c != 0x6b

def Clear (t : Bytes) : Prop := ∀ c ∈ t, isClear c = true

instance (t : Bytes) : Decidable (Clear t) := List.decidableBAll (fun c => isClear c = true) t

theorem clear_cons {c : UInt8} {t : Bytes} : Clear (c :: t) ↔ isClear c = true ∧ Clear t :=
  List.forall_mem_cons

theorem clear_append {s t : Bytes} : Clear (s ++ t) ↔ Clear s ∧ Clear t :=
  List.forall_mem_append

private theorem toNat_of_isClear {c : UInt8} (h : isClear c = true) :
    0 < c.toNat ∧ c.toNat < 0x80 ∧ c.toNat ≠ 0x69 ∧ c.toNat ≠ 0x6b := by
  simp only [isClear, Bool.and_eq_true, decide_eq_true_eq, bne_iff_ne, ne_eq,
    UInt8.lt_iff_toNat_lt, ← UInt8.toNat_inj] at h
  exact ⟨h.1.1.1.1, h.1.1.1.2, h.1.2, h.2⟩

theorem Clear.ascii {t : Bytes} (h : Clear t) : ∀ c ∈ t, c.toNat < 0x80 :=
  fun c hc => (toNat_of_isClear (h c hc)).2.1

/-- Outside of ASCII a run stays there, but for the two characters that go to `i` and `k`. -/
private theorem caseRuns_clear :
    (caseRuns.all fun r => decide (r.last < 0x80) || decide (0x80 ≤ r.first + r.delta) ||
      r.first == r.last && (r.first + r.delta == 0x69 || r.first + r.delta == 0x6b)) = true := by
  decide +kernel

private theorem ascii_of_lowerChar {c : Char} {n : Nat} (h : (lowerChar c).toNat = n)
    (hpos : 0 < n) (hlt : n < 0x80) (hi : n ≠ 0x69) (hk : n ≠ 0x6b) : c.toNat < 0x80 := by
  by_contra hc
  rw [lowerChar, if_neg hc] at h
  cases hr : caseRuns.find? (·.contains c.toNat) with
  | none =>
    simp only [hr] at h
    omega
  | some r =>
    simp only [hr] at h
    have hn : n = (c.toNat + r.delta).toNat := by rw [← h, toNat_ofNat_of_pos (h ▸ hpos)]
    -- a run that leads into ASCII holds one character, and that goes to `i` or `k`
    have hcontains := List.find?_some hr
    have hrun := List.all_eq_true.mp caseRuns_clear r (List.mem_of_find?_eq_some hr)
    simp only [CaseRun.contains, Bool.and_eq_true, decide_eq_true_eq] at hcontains
    simp only [Bool.or_eq_true, Bool.and_eq_true, decide_eq_true_eq, beq_iff_eq] at hrun
    omega

theorem Glyph.exists_of_lower {c : UInt8} (hc : isClear c = true) {g : Glyph}
    (h : g.lower = .ofByte c) :
    ∃ b : UInt8, b.toNat < 0x80 ∧ spells c b = true ∧ g = .ofByte b := by
  obtain ⟨hpos, hlt, hi, hk⟩ := toNat_of_isClear hc
  have hval : (Char.ofNat c.toNat).toNat = c.toNat := val_ofNat (.inl (by omega))
  have hlower : (lowerChar g.shown).toNat = c.toNat := by
    rw [Glyph.lower, Glyph.ofByte, Glyph.char.injEq] at h
    rw [h, hval]
  cases g with
  | stray a =>
    have hstray : ¬ '\ufffd'.toNat < 0x80 := by decide
    exact absurd (ascii_of_lowerChar hlower hpos hlt hi hk) hstray
  | char d =>
    have hd : d.toNat < 0x80 := ascii_of_lowerChar hlower hpos hlt hi hk
    rw [Glyph.shown, lowerChar, if_pos hd, toNat_toLower] at hlower
    have hbyte : (UInt8.ofNat d.toNat).toNat = d.toNat :=
      UInt8.toNat_ofNat_of_lt' (Nat.lt_trans hd (by decide))
    refine ⟨UInt8.ofNat d.toNat, by omega, ?_, ?_⟩
    · rw [spells_iff, ← UInt8.toNat_inj, hbyte]
      split at hlower <;> omega
    · rw [Glyph.ofByte, hbyte, Char.ofNat_toNat]

theorem AnyCase.nil_left {s : Bytes} : AnyCase [] s ↔ s = [] := List.forall₂_nil_left_iff

theorem AnyCase.cons_left {c : UInt8} {t s : Bytes} :
    AnyCase (c :: t) s ↔ ∃ b u, spells c b = true ∧ AnyCase t u ∧ s = b :: u :=
  List.forall₂_cons_left_iff

theorem AnyCase.refl (t : Bytes) : AnyCase t t :=
  List.forall₂_same.mpr fun c _ => by simp [spells]

private theorem anyCase_of_glyphs {t : Bytes} (ht : Clear t) {gs : List Glyph}
    (h : gs.map Glyph.lower = t.map Glyph.ofByte) : AnyCase t (ofGlyphs gs) := by
  induction gs generalizing t with
  | nil =>
    obtain rfl := List.map_eq_nil_iff.mp h.symm
    exact .nil
  | cons g gs ih =>
    cases t with
    | nil => cases h
    | cons c t =>
      rw [clear_cons] at ht
      rw [List.map_cons, List.map_cons, List.cons.injEq] at h
      obtain ⟨b, hb, hspells, rfl⟩ := Glyph.exists_of_lower ht.1 h.1
      rw [ofGlyphs, List.flatMap_cons, Glyph.bytes_ofByte hb]
      exact .cons hspells (ih ht.2 h.2)

private theorem lowered_spelling (c : UInt8) :
    (!isClear c || decide (Number.lowerLetters [c] = [c]) &&
      (!(decide (0x61 ≤ c) && decide (c ≤ 0x7a)) || decide ((c - 0x20).toNat < 0x80) &&
        decide (Number.lowerLetters [c - 0x20] = [c]))) = true := by
  revert c
  exact forall_byte (by decide +kernel)

private theorem lowerLetters_spelling {c b : UInt8} (hc : isClear c = true)
    (h : spells c b = true) : b.toNat < 0x80 ∧ Number.lowerLetters [b] = [c] := by
  have hlowered := lowered_spelling c
  simp only [hc, Bool.not_true, Bool.false_or, Bool.and_eq_true, decide_eq_true_eq] at hlowered
  simp only [spells, Bool.or_eq_true, beq_iff_eq, Bool.and_eq_true, decide_eq_true_eq] at h
  rcases h with rfl | ⟨hletter, rfl⟩
  · exact ⟨(toNat_of_isClear hc).2.1, hlowered.1⟩
  · have hcapital := hlowered.2
    simp only [hletter.1, hletter.2, decide_true, Bool.and_true, Bool.not_true, Bool.false_or,
      Bool.and_eq_true, decide_eq_true_eq] at hcapital
    exact hcapital

theorem AnyCase.ascii {t s : Bytes} (ht : Clear t) (h : AnyCase t s) : ∀ b ∈ s, b.toNat < 0x80 := by
  induction h with
  | nil => simp
  | cons hspells _ ih =>
    rw [clear_cons] at ht
    exact List.forall_mem_cons.mpr ⟨(lowerLetters_spelling ht.1 hspells).1, ih ht.2⟩

private theorem lowerLetters_anyCase {t s : Bytes} (ht : Clear t) (h : AnyCase t s) :
    Number.lowerLetters s = t := by
  induction h with
  | nil => rfl
  | cons hspells _ ih =>
    rw [clear_cons] at ht
    have hbyte := (lowerLetters_spelling ht.1 hspells).2
    rw [Number.lowerLetters, List.map_cons, ← Number.lowerLetters, ih ht.2]
    rw [Number.lowerLetters, List.map_singleton, List.cons.injEq] at hbyte
    rw [hbyte.1]

theorem lower_eq_iff {t s : Bytes} (ht : Clear t) : lower s = t ↔ AnyCase t s := by
  constructor
  · intro h
    have hglyphs : (glyphs s).map Glyph.lower = t.map Glyph.ofByte := by
      rw [← glyphs_lower, h, glyphs_ascii ht.ascii]
    have hany := anyCase_of_glyphs ht hglyphs
    rwa [ofGlyphs_glyphs] at hany
  · intro h
    rw [lower_ascii (h.ascii ht), lowerLetters_anyCase ht h]

private theorem lowerChar_capital (c : Char) :
    ¬(0x41 ≤ (lowerChar c).toNat ∧ (lowerChar c).toNat ≤ 0x5a) := by
  intro h
  have hc : c.toNat < 0x80 :=
    ascii_of_lowerChar rfl (by omega) (by omega) (by omega) (by omega)
  rw [lowerChar, if_pos hc, toNat_toLower] at h
  split at h <;> omega

theorem capital_notMem_lower {b : UInt8} (hlow : 0x41 ≤ b) (hhigh : b ≤ 0x5a) (s : Bytes) :
    b ∉ lower s := by
  intro hb
  have hlow : 0x41 ≤ b.toNat := UInt8.le_iff_toNat_le.mp hlow
  have hhigh : b.toNat ≤ 0x5a := UInt8.le_iff_toNat_le.mp hhigh
  rw [← ofByte_mem_glyphs (by omega), glyphs_lower, List.mem_map] at hb
  obtain ⟨g, -, hg⟩ := hb
  rw [Glyph.lower, Glyph.ofByte, Glyph.char.injEq] at hg
  have hval : (Char.ofNat b.toNat).toNat = b.toNat := val_ofNat (.inl (by omega))
  apply lowerChar_capital g.shown
  rw [hg, hval]
  exact ⟨hlow, hhigh⟩

theorem AnyCase.eq_of_capitals {t s : Bytes} (h : AnyCase t s)
    (hs : ∀ b ∈ s, ¬(0x41 ≤ b ∧ b ≤ 0x5a)) : s = t := by
  induction h with
  | nil => rfl
  | @cons c b t u hspells _ ih =>
    obtain ⟨hb, hu⟩ := List.forall_mem_cons.mp hs
    rw [ih hu, List.cons.injEq]
    refine ⟨?_, rfl⟩
    rcases spells_iff.mp hspells with heq | ⟨hlow, hhigh, hcapital⟩
    · exact heq
    · have hin : 0x41 ≤ b.toNat ∧ b.toNat ≤ 0x5a := by omega
      exact absurd ⟨UInt8.le_iff_toNat_le.mpr hin.1, UInt8.le_iff_toNat_le.mpr hin.2⟩ hb

/-- Lower case is found again in a part of a lower-case text. -/
theorem lower_of_sublist {t s u : Bytes} (ht : Clear t) (hs : s.Sublist (lower u)) :
    lower s = t ↔ s = t := by
  rw [lower_eq_iff ht]
  constructor
  · intro h
    apply h.eq_of_capitals
    rintro b hb ⟨hlow, hhigh⟩
    exact capital_notMem_lower hlow hhigh u (hs.subset hb)
  · rintro rfl
    exact AnyCase.refl s

theorem anyCase_lower_iff {t s : Bytes} (ht : Clear t) : AnyCase t (lower s) ↔ AnyCase t s := by
  rw [← lower_eq_iff ht, ← lower_eq_iff ht, lower_of_sublist ht (List.Sublist.refl (lower s))]

end ScalableVector.Text
