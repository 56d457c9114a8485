import ScalableVector.Proofs.TopLevel

/-!
# Changes of letter case

A function on bytes that changes nothing but the case of ASCII letters leaves the structure of a
text as it is: its glyphs, its white space, its comment, its name and its parts.
-/

namespace ScalableVector.Text

open Number (isLetter)

def lowerByte (c : UInt8) : UInt8 := if isLetter c then c ||| 0x20 else c

def upperByte (c : UInt8) : UInt8 := if isLetter c then c &&& 0xdf else c

/-- The function changes the case of ASCII letters and nothing else. -/
def Recases (f : UInt8 → UInt8) : Prop := ∀ b, lowerByte (f b) = lowerByte b

def letters : List UInt8 := (List.range' 0x41 26 ++ List.range' 0x61 26).map UInt8.ofNat

theorem mem_letters {b : UInt8} (h : isLetter b = true) : b ∈ letters := by
  have hb := forall_byte (p := fun b => !isLetter b || letters.contains b) (by decide +kernel) b
  rwa [h, Bool.not_true, Bool.false_or, List.contains_iff_mem] at hb

theorem forall_letter {p : UInt8 → Bool} (h : letters.all p = true) {b : UInt8}
    (hb : isLetter b = true) : p b = true := List.all_eq_true.mp h b (mem_letters hb)

theorem lowerByte_of_not_isLetter {b : UInt8} (h : isLetter b = false) : lowerByte b = b := by
  rw [lowerByte, h, if_neg Bool.false_ne_true]

theorem recases_lowerByte : Recases lowerByte := by
  intro b
  cases hb : isLetter b with
  | false => rw [lowerByte_of_not_isLetter hb, lowerByte_of_not_isLetter hb]
  | true =>
    exact eq_of_beq (forall_letter (p := fun b => lowerByte (lowerByte b) == lowerByte b)
      (by decide) hb)

theorem recases_upperByte : Recases upperByte := by
  intro b
  cases hb : isLetter b with
  | false => rw [upperByte, hb, if_neg Bool.false_ne_true]
  | true =>
    exact eq_of_beq (forall_letter (p := fun b => lowerByte (upperByte b) == lowerByte b)
      (by decide) hb)

theorem ascii_of_isLetter {b : UInt8} (h : isLetter b = true) : b.toNat < 0x80 := by
  exact of_decide_eq_true (forall_letter (p := fun b => decide (b.toNat < 0x80)) (by decide) h)

namespace Recases

variable {f : UInt8 → UInt8} (hf : Recases f)
include hf

/-- What is the same for a letter and its lower-case form is the same after the change. -/
theorem apply {α : Type} [DecidableEq α] {p : UInt8 → α}
    (hp : (letters.all fun b => decide (p (lowerByte b) = p b)) = true) (b : UInt8) :
    p (f b) = p b := by
  have hlower (b : UInt8) : p (lowerByte b) = p b := by
    cases hb : isLetter b with
    | false => rw [lowerByte_of_not_isLetter hb]
    | true => exact of_decide_eq_true (forall_letter hp hb)
  rw [← hlower, hf, hlower]

theorem isLetter_apply (b : UInt8) : isLetter (f b) = isLetter b := hf.apply (by decide) b

theorem of_not_isLetter {b : UInt8} (h : isLetter b = false) : f b = b := by
  have hb := hf b
  have hfb := hf.isLetter_apply b
  rw [h] at hfb
  rwa [lowerByte, lowerByte, hfb, h] at hb

theorem eq_iff {m : UInt8} (hm : isLetter m = false) {b : UInt8} : f b = m ↔ b = m := by
  cases hb : isLetter b with
  | false => rw [hf.of_not_isLetter hb]
  | true =>
    have hfb := hf.isLetter_apply b
    rw [hb] at hfb
    constructor
    · rintro rfl
      rw [hm] at hfb
      cases hfb
    · rintro rfl
      rw [hm] at hb
      cases hb

theorem map_of_not_isLetter {s : Bytes} (h : ∀ b ∈ s, isLetter b = false) : s.map f = s :=
  (List.map_congr_left fun b hb => hf.of_not_isLetter (h b hb)).trans (List.map_id s)

section Glyphs

private theorem isTail_apply (b : UInt8) : isTail (f b) = isTail b := hf.apply (by decide) b

private theorem of_high {b : UInt8} (h : 0x80 ≤ b.toNat) : f b = b := by
  apply hf.of_not_isLetter
  cases hb : isLetter b with
  | false => rfl
  | true => exact absurd (ascii_of_isLetter hb) (Nat.not_lt.mpr h)

private theorem of_tail {b : UInt8} (h : isTail b = true) : f b = b := by
  rw [isTail, Bool.and_eq_true, decide_eq_true_eq, UInt8.le_iff_toNat_le] at h
  exact hf.of_high h.1

private theorem pair?_map (a : UInt8) (s : Bytes) : pair? a (s.map f) = pair? a s := by
  match s with
  | [] => rfl
  | b :: t =>
    cases hb : isTail b with
    | true => rw [List.map_cons, hf.of_tail hb, pair?, pair?]
    | false => simp [pair?, hf.isTail_apply, hb]

private theorem triple?_map (a : UInt8) (s : Bytes) : triple? a (s.map f) = triple? a s := by
  match s with
  | [] => rfl
  | [b] => rfl
  | b :: c :: t =>
    cases hb : isTail b with
    | false => simp [triple?, hf.isTail_apply, hb]
    | true =>
      cases hc : isTail c with
      | false => simp [triple?, hf.isTail_apply, hc]
      | true => rw [List.map_cons, List.map_cons, hf.of_tail hb, hf.of_tail hc, triple?, triple?]

private theorem quad?_map (a : UInt8) (s : Bytes) : quad? a (s.map f) = quad? a s := by
  match s with
  | [] => rfl
  | [b] => rfl
  | [b, c] => rfl
  | b :: c :: d :: t =>
    cases hb : isTail b with
    | false => simp [quad?, hf.isTail_apply, hb]
    | true =>
      cases hc : isTail c with
      | false => simp [quad?, hf.isTail_apply, hc]
      | true =>
        cases hd : isTail d with
        | false => simp [quad?, hf.isTail_apply, hd]
        | true =>
          rw [List.map_cons, List.map_cons, List.map_cons, hf.of_tail hb, hf.of_tail hc,
            hf.of_tail hd, quad?, quad?]

private theorem firstGlyph_map {a : UInt8} (h : 0x80 ≤ a.toNat) (s : Bytes) :
    firstGlyph (f a) (s.map f) = firstGlyph a s := by
  rw [firstGlyph, firstGlyph, hf.pair?_map, hf.triple?_map, hf.quad?_map, hf.of_high h]

private theorem glyphsAfter_map {α : Type} {p : Glyph → α}
    (hp : ∀ b : UInt8, b.toNat < 0x80 → p (.ofByte (f b)) = p (.ofByte b)) (k : Nat) (s : Bytes) :
    (glyphsAfter k (s.map f)).map p = (glyphsAfter k s).map p := by
  induction s generalizing k with
  | nil => rfl
  | cons a s ih =>
    cases k with
    | succ k => exact ih k
    | zero =>
      rw [List.map_cons, glyphsAfter, glyphsAfter, List.map_cons, List.map_cons]
      by_cases ha : a.toNat < 0x80
      · have hfa : (f a).toNat < 0x80 := by
          have hlow : decide ((f a).toNat < 0x80) = decide (a.toNat < 0x80) :=
            hf.apply (p := fun b => decide (b.toNat < 0x80)) (by decide) a
          rwa [decide_eq_true ha, decide_eq_true_eq] at hlow
        rw [firstGlyph_ascii ha, firstGlyph_ascii hfa, hp a ha, ih]
      · rw [hf.firstGlyph_map (Nat.not_lt.mp ha), ih]

/-- What is the same for a letter and its other case is the same for all glyphs of a text. -/
theorem map_glyphs {α : Type} [DecidableEq α] {p : Glyph → α}
    (hp : (letters.all fun b => decide (p (.ofByte (lowerByte b)) = p (.ofByte b))) = true)
    (s : Bytes) :
    (glyphs (s.map f)).map p = (glyphs s).map p :=
  hf.glyphsAfter_map (fun b _ => hf.apply (p := fun b => p (.ofByte b)) hp b) 0 s

end Glyphs

theorem lower_map (s : Bytes) : lower (s.map f) = lower s := by
  rw [lower, lower, hf.map_glyphs (p := Glyph.lower) (by decide)]

theorem map_blank {s : Bytes} (h : Blank s) : s.map f = s := by
  apply hf.map_of_not_isLetter
  intro b hb
  cases hletter : isLetter b with
  | false => rfl
  | true =>
    have hblank := h _ ((ofByte_mem_glyphs (ascii_of_isLetter hletter)).mpr hb)
    have hink := forall_letter (p := fun b => !(Glyph.ofByte b).isBlank) (by decide) hletter
    rw [hblank] at hink
    cases hink

private theorem isBlank_glyphs (s : Bytes) :
    (glyphs (s.map f)).map Glyph.isBlank = (glyphs s).map Glyph.isBlank :=
  hf.map_glyphs (by decide) s

theorem startsInk_map {s : Bytes} (h : StartsInk s) : StartsInk (s.map f) := by
  obtain ⟨g, gs, hg, hink⟩ := h
  have hblank := hf.isBlank_glyphs s
  rw [hg, List.map_cons, hink] at hblank
  obtain ⟨g', gs', hg', hink', -⟩ := List.map_eq_cons_iff.mp hblank
  exact ⟨g', gs', hg', hink'⟩

theorem endsInk_map {s : Bytes} (h : EndsInk s) : EndsInk (s.map f) := by
  obtain ⟨gs, g, hg, hink⟩ := h
  have hblank := hf.isBlank_glyphs s
  rw [hg, List.map_append, List.map_singleton, hink] at hblank
  obtain ⟨gs', last, hg', -, hlast⟩ := List.map_eq_append_iff.mp hblank
  obtain ⟨g', rfl, hink'⟩ := List.map_eq_singleton_iff.mp hlast
  exact ⟨gs', g', hg', hink'⟩

theorem padded_map {ink s : Bytes} (h : Padded ink s) : Padded (ink.map f) (s.map f) := by
  obtain ⟨before, after, hbefore, hafter, rfl⟩ := h
  refine ⟨before, after, hbefore, hafter, ?_⟩
  rw [List.map_append, List.map_append, hf.map_blank hbefore, hf.map_blank hafter]

theorem trim_map (s : Bytes) : trim (s.map f) = (trim s).map f := by
  have hpadded := hf.padded_map (padded_trim s)
  rcases trim_inked s with hnil | ⟨hstarts, hends⟩
  · rw [hnil] at hpadded ⊢
    exact hpadded.trim_nil
  · exact hpadded.trim (hf.startsInk_map hstarts) (hf.endsInk_map hends)

theorem depthAfter_apply (depth : Int) (c : UInt8) :
    depthAfter depth (f c) = depthAfter depth c := by
  have hopens : opens (f c) = opens c := hf.apply (by decide) c
  have hcloses : closes (f c) = closes c := hf.apply (by decide) c
  rw [depthAfter, depthAfter, hopens, hcloses]

theorem cut_map (depth : Int) (s : Bytes) :
    cut depth (s.map f) = ((cut depth s).1.map f, (cut depth s).2.map (List.map f)) := by
  induction s generalizing depth with
  | nil => rfl
  | cons c s ih =>
    by_cases hc : c = 0x2c ∧ depth = 0
    · obtain ⟨rfl, rfl⟩ := hc
      rw [List.map_cons, hf.of_not_isLetter (by decide), cut_comma, cut_comma, ih]
      rfl
    · have hfc : ¬(f c = 0x2c ∧ depth = 0) := by rwa [hf.eq_iff (by decide)]
      rw [List.map_cons, cut_cons (not_and_or.mp hfc), cut_cons (not_and_or.mp hc),
        hf.depthAfter_apply, ih]
      rfl

theorem parts_map (s : Bytes) : parts (s.map f) = (parts s).map (List.map f) := by
  rw [parts, hf.cut_map, parts]
  rcases cut 0 s with ⟨first, _ | ⟨second, rest⟩⟩
  · simp only [List.map_nil, hf.trim_map, List.isEmpty_map]
    split <;> rfl
  · simp [hf.trim_map, Function.comp_def]

end Recases

end ScalableVector.Text

namespace ScalableVector.Line

open Text (Recases)

variable {f : UInt8 → UInt8} (hf : Recases f)
include hf

theorem dropComment_map (s : Bytes) : dropComment (s.map f) = (dropComment s).map f := by
  induction s with
  | nil => rfl
  | cons c s ih =>
    cases s with
    | nil => rfl
    | cons d s =>
      simp only [List.map_cons, dropComment,
        hf.eq_iff (show Number.isLetter 0x2f = false by decide)]
      split
      · rfl
      · rw [List.map_cons, ← List.map_cons, ih]

theorem endsName_apply (c : UInt8) : endsName (f c) = endsName c := hf.apply (by decide) c

theorem name_map (s : Bytes) : name (s.map f) = (name s).map f := by
  rw [name, List.takeWhile_map, name]
  simp only [Function.comp_def, endsName_apply hf]

theorem operands_map (s : Bytes) : operands (s.map f) = (operands s).map (List.map f) := by
  rw [operands, List.dropWhile_map, ← List.map_drop, hf.parts_map, operands]
  simp only [Function.comp_def, endsName_apply hf]

end ScalableVector.Line
