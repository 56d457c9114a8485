import ScalableVector.Number.Float
import ScalableVector.Proofs.Glyphs
import ScalableVector.Text.Basic
import ScalableVector.Text.LowerCase

/-!
# Delimiters and lower case

Putting a text in lower case neither makes nor removes white space, commas, slashes and brackets,
so what delimits the parts of a text can be read off its lower-case form.
-/

namespace ScalableVector.Text

def marks : List Char := [',', '/', '[', ']', '{', '}']

/-- The character is white space, a comma, a slash or a bracket. -/
def isDelimiter (c : Char) : Bool := isBlank c || marks.contains c

def Glyph.isDelimiter : Glyph → Bool
  | .char c => Text.isDelimiter c
  | .stray _ => false

private def delimiterPoints : List Nat :=
  blankRuns.flatMap (fun run => List.range' run.1 (run.2 + 1 - run.1)) ++ marks.map Char.toNat

private theorem mem_delimiterPoints {c : Char} (h : isDelimiter c = true) :
    c.toNat ∈ delimiterPoints := by
  rw [isDelimiter, Bool.or_eq_true] at h
  rw [delimiterPoints, List.mem_append]
  rcases h with h | h
  · obtain ⟨run, hrun, hc⟩ := List.any_eq_true.mp h
    simp only [Bool.and_eq_true, decide_eq_true_eq] at hc
    refine .inl (List.mem_flatMap.mpr ⟨run, hrun, ?_⟩)
    rw [List.mem_range'_1]
    omega
  · exact .inr (List.mem_map_of_mem (List.contains_iff_mem.mp h))

private theorem lowerChar_delimiterPoints :
    (delimiterPoints.all fun n => lowerChar (Char.ofNat n) == Char.ofNat n) = true := by
  decide +kernel

private theorem delimiterPoints_noLetter :
    ∀ n ∈ delimiterPoints, ¬(0x61 ≤ n ∧ n ≤ 0x7a) := by
  decide

theorem toNat_toLower (c : Char) :
    c.toLower.toNat = if 0x41 ≤ c.toNat ∧ c.toNat ≤ 0x5a then c.toNat + 0x20 else c.toNat := by
  have hcapital : c.val ≥ 'A'.val ∧ c.val ≤ 'Z'.val ↔ 0x41 ≤ c.toNat ∧ c.toNat ≤ 0x5a := by
    rw [ge_iff_le, UInt32.le_iff_toNat_le, UInt32.le_iff_toNat_le]
    rfl
  unfold Char.toLower
  by_cases h : c.val ≥ 'A'.val ∧ c.val ≤ 'Z'.val
  · rw [dif_pos h, if_pos (hcapital.mp h)]
    have hle := (hcapital.mp h).2
    change (c.val + 0x20).toNat = c.toNat + 0x20
    rw [UInt32.toNat_add]
    exact Nat.mod_eq_of_lt (Nat.lt_of_le_of_lt (Nat.add_le_add_right hle 0x20) (by decide))
  · rw [dif_neg h, if_neg (mt hcapital.mpr h)]

private theorem caseRuns_miss :
    (caseRuns.all fun r => delimiterPoints.all fun n => 0 < n &&
      !r.contains ((n : Int) - r.delta).toNat) = true := by
  decide +kernel

private theorem lowerChar_delimiter {c : Char} (h : isDelimiter c = true) : lowerChar c = c := by
  have hpoint := List.all_eq_true.mp lowerChar_delimiterPoints _ (mem_delimiterPoints h)
  rw [Char.ofNat_toNat] at hpoint
  exact eq_of_beq hpoint

theorem toNat_ofNat_of_pos {n : Nat} (h : 0 < (Char.ofNat n).toNat) :
    (Char.ofNat n).toNat = n := by
  by_cases hv : n.isValidChar
  · exact val_ofNat hv
  · have hc : Char.ofNat n = '\x00' := dif_neg hv
    rw [hc] at h
    cases h

private theorem eq_of_lowerChar {c : Char} (h : isDelimiter (lowerChar c) = true) :
    lowerChar c = c := by
  by_cases hc : c.toNat < 0x80
  · rw [lowerChar, if_pos hc] at h ⊢
    have hletter := delimiterPoints_noLetter _ (mem_delimiterPoints h)
    rw [toNat_toLower] at hletter
    have hsmall : ¬(0x41 ≤ c.toNat ∧ c.toNat ≤ 0x5a) := by
      intro hcapital
      rw [if_pos hcapital] at hletter
      omega
    rw [← Char.toNat_inj, toNat_toLower, if_neg hsmall]
  · cases hr : caseRuns.find? (·.contains c.toNat) with
    | none => rw [lowerChar, if_neg hc, hr]
    | some r =>
      -- A character of the run would have to lie at the distance of the run below a delimiter.
      rw [lowerChar, if_neg hc, hr] at h
      have hpoint := mem_delimiterPoints h
      have hmiss := List.all_eq_true.mp caseRuns_miss r (List.mem_of_find?_eq_some hr)
      have hmiss := List.all_eq_true.mp hmiss _ hpoint
      rw [Bool.and_eq_true, decide_eq_true_eq] at hmiss
      obtain ⟨hpos, hmiss⟩ := hmiss
      have hn := toNat_ofNat_of_pos hpos
      have hcontains := List.find?_some hr
      simp only at hcontains hn hpos hmiss
      rw [hn] at hpos hmiss
      have hback : (((c.toNat + r.delta).toNat : Int) - r.delta).toNat = c.toNat := by omega
      rw [hback, hcontains] at hmiss
      cases hmiss

theorem Glyph.lower_delimiter {g : Glyph} (h : g.isDelimiter = true) : g.lower = g := by
  cases g with
  | stray b => cases h
  | char c => exact congrArg Glyph.char (lowerChar_delimiter h)

/-- A glyph and its lower-case form are delimiters together. -/
theorem Glyph.isDelimiter_lower (g : Glyph) : g.lower.isDelimiter = g.isDelimiter := by
  cases g with
  | stray b =>
    change Text.isDelimiter (lowerChar '\ufffd') = false
    cases h : Text.isDelimiter (lowerChar '\ufffd') with
    | false => rfl
    | true =>
      have hstray : Text.isDelimiter '\ufffd' = false := by decide
      rw [eq_of_lowerChar h, hstray] at h
      cases h
  | char c =>
    change Text.isDelimiter (lowerChar c) = Text.isDelimiter c
    cases h : Text.isDelimiter (lowerChar c) with
    | true => rw [← eq_of_lowerChar h, h]
    | false =>
      cases h' : Text.isDelimiter c with
      | false => rfl
      | true => rw [← h, lowerChar_delimiter h', h']

private theorem Glyph.lower_eq_iff {g d : Glyph} (hd : d.isDelimiter = true) :
    g.lower = d ↔ g = d := by
  constructor
  · rintro rfl
    exact (Glyph.lower_delimiter (by rw [← Glyph.isDelimiter_lower, hd])).symm
  · rintro rfl
    exact Glyph.lower_delimiter hd

theorem glyphs_lower (s : Bytes) : glyphs (lower s) = (glyphs s).map Glyph.lower := by
  have h : (glyphs s).map Glyph.lower =
      ((glyphs s).map fun g => lowerChar g.shown).map Glyph.char := by
    rw [List.map_map]
    rfl
  rw [lower, h, glyphs_ofGlyphs]

def Solid (s : Bytes) : Prop := ∀ g ∈ glyphs s, g.isDelimiter = false

theorem solid_lower {s : Bytes} : Solid (lower s) ↔ Solid s := by
  rw [Solid, glyphs_lower, List.forall_mem_map]
  simp only [Glyph.isDelimiter_lower, Solid]

theorem count_lower {b : UInt8} (hb : b.toNat < 0x80)
    (hd : (Glyph.ofByte b).isDelimiter = true) (s : Bytes) : (lower s).count b = s.count b := by
  rw [← count_glyphs hb, ← count_glyphs hb, glyphs_lower]
  induction glyphs s with
  | nil => rfl
  | cons g gs ih =>
    have hg : (g.lower == Glyph.ofByte b) = (g == Glyph.ofByte b) := by
      rw [Bool.eq_iff_iff, beq_iff_eq, beq_iff_eq, Glyph.lower_eq_iff hd]
    rw [List.map_cons, List.count_cons, List.count_cons, ih, hg]

theorem glyphs_ascii {s : Bytes} (h : ∀ b ∈ s, b.toNat < 0x80) : glyphs s = s.map Glyph.ofByte := by
  induction s with
  | nil => rfl
  | cons b s ih =>
    have hb := h b List.mem_cons_self
    rw [show b :: s = [] ++ b :: s from rfl, glyphs_append hb,
      ih fun c hc => h c (List.mem_cons_of_mem b hc)]
    rfl

private theorem lower_ofByte (b : UInt8) :
    (!decide (b.toNat < 0x80) ||
      (Glyph.ofByte b).lower.bytes == Number.lowerLetters [b]) = true := by
  revert b
  exact forall_byte (by decide +kernel)

theorem lower_ascii {s : Bytes} (h : ∀ b ∈ s, b.toNat < 0x80) :
    lower s = Number.lowerLetters s := by
  rw [lower, glyphs_ascii h, ofGlyphs]
  induction s with
  | nil => rfl
  | cons b s ih =>
    have hbyte := lower_ofByte b
    rw [decide_eq_true (h b List.mem_cons_self)] at hbyte
    rw [List.map_cons, List.map_cons, List.flatMap_cons, eq_of_beq hbyte,
      ih fun c hc => h c (List.mem_cons_of_mem b hc)]
    rfl

end ScalableVector.Text
