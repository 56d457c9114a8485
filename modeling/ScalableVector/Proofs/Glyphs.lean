import ScalableVector.Text.Basic

/-!
# Glyphs of a text

Cutting a text into glyphs loses nothing, and characters that are put together are found again. A
byte below `0x80` is a glyph of its own wherever it stands, so a text may be cut before it.
-/

namespace ScalableVector.Text

theorem forall_byte {p : UInt8 → Bool}
    (h : ((List.range 256).all fun n => p (UInt8.ofNat n)) = true) (b : UInt8) : p b = true := by
  have hb := List.all_eq_true.mp h b.toNat (List.mem_range.mpr b.toNat_lt)
  rwa [UInt8.ofNat_toNat] at hb

theorem val_ofNat {n : Nat} (h : n.isValidChar) : (Char.ofNat n).val.toNat = n := by
  have hc : Char.ofNat n = Char.ofNatAux n h := dif_pos h
  rw [hc]
  rfl

private theorem encode_ascii {a : UInt8} (h : a.toNat < 0x80) :
    String.utf8EncodeChar (Char.ofNat a.toNat) = [a] := by
  have hv : (Char.ofNat a.toNat).val.toNat = a.toNat := val_ofNat (.inl (by omega))
  rw [String.utf8EncodeChar, hv, if_pos (by omega), UInt8.ofNat_toNat]

private theorem ofNat_eq {n : Nat} {b : UInt8} (h : n = b.toNat) : UInt8.ofNat n = b := by
  rw [h, UInt8.ofNat_toNat]

private theorem isTail_iff {b : UInt8} : isTail b = true ↔ 0x80 ≤ b.toNat ∧ b.toNat ≤ 0xBF := by
  simp only [isTail, Bool.and_eq_true, decide_eq_true_eq, UInt8.le_iff_toNat_le]
  exact Iff.rfl

private theorem pair?_eq_some {a : UInt8} {s : Bytes} {c : Char} (h : pair? a s = some c) :
    ∃ b t, s = b :: t ∧ 0x80 ≤ b.toNat ∧ 0x80 ≤ a.toNat ∧ String.utf8EncodeChar c = [a, b] := by
  match s, h with
  | b :: t, h =>
    rw [pair?, Option.ite_none_right_eq_some] at h
    obtain ⟨hcond, hc⟩ := h
    obtain rfl := Option.some.inj hc
    simp only [Bool.and_eq_true, isTail_iff] at hcond
    obtain ⟨⟨ha, ha'⟩, hb⟩ := hcond
    have ha : 0xC2 ≤ a.toNat := UInt8.le_iff_toNat_le.mp (of_decide_eq_true ha)
    have ha' : a.toNat ≤ 0xDF := UInt8.le_iff_toNat_le.mp (of_decide_eq_true ha')
    unfold tailBits
    have hv := val_ofNat (n := a.toNat % 32 * 64 + b.toNat % 64) (.inl (by omega))
    refine ⟨b, t, rfl, hb.1, by omega, ?_⟩
    rw [String.utf8EncodeChar, hv, if_neg (by omega), if_pos (by omega),
      ofNat_eq (b := a) (by omega), ofNat_eq (b := b) (by omega)]

private theorem triple?_eq_some {a : UInt8} {s : Bytes} {c : Char} (h : triple? a s = some c) :
    ∃ b b' t, s = b :: b' :: t ∧ 0x80 ≤ b.toNat ∧ 0x80 ≤ b'.toNat ∧ 0x80 ≤ a.toNat ∧
      String.utf8EncodeChar c = [a, b, b'] := by
  match s, h with
  | b :: b' :: t, h =>
    rw [triple?, Option.ite_none_right_eq_some] at h
    obtain ⟨hcond, hc⟩ := h
    obtain rfl := Option.some.inj hc
    simp only [Bool.and_eq_true, Bool.not_eq_true', Bool.and_eq_false_iff, isTail_iff,
      decide_eq_true_eq, decide_eq_false_iff_not] at hcond
    unfold tailBits at *
    obtain ⟨⟨⟨⟨⟨ha, ha'⟩, hb⟩, hb'⟩, hlow⟩, hgap⟩ := hcond
    have ha : 0xE0 ≤ a.toNat := UInt8.le_iff_toNat_le.mp ha
    have ha' : a.toNat ≤ 0xEF := UInt8.le_iff_toNat_le.mp ha'
    have hv := val_ofNat (n := a.toNat % 16 * 4096 + b.toNat % 64 * 64 + b'.toNat % 64)
      (by unfold Nat.isValidChar; omega)
    refine ⟨b, b', t, rfl, hb.1, hb'.1, by omega, ?_⟩
    rw [String.utf8EncodeChar, hv, if_neg (by omega), if_neg (by omega), if_pos (by omega),
      ofNat_eq (b := a) (by omega), ofNat_eq (b := b) (by omega), ofNat_eq (b := b') (by omega)]

private theorem quad?_eq_some {a : UInt8} {s : Bytes} {c : Char} (h : quad? a s = some c) :
    ∃ b b' b'' t, s = b :: b' :: b'' :: t ∧ 0x80 ≤ b.toNat ∧ 0x80 ≤ b'.toNat ∧ 0x80 ≤ b''.toNat ∧
      0x80 ≤ a.toNat ∧ String.utf8EncodeChar c = [a, b, b', b''] := by
  match s, h with
  | b :: b' :: b'' :: t, h =>
    rw [quad?, Option.ite_none_right_eq_some] at h
    obtain ⟨hcond, hc⟩ := h
    obtain rfl := Option.some.inj hc
    simp only [Bool.and_eq_true, isTail_iff] at hcond
    unfold tailBits at *
    obtain ⟨⟨⟨⟨⟨⟨ha, ha'⟩, hb⟩, hb'⟩, hb''⟩, hlow⟩, hhigh⟩ := hcond
    have ha : 0xF0 ≤ a.toNat := UInt8.le_iff_toNat_le.mp (of_decide_eq_true ha)
    have ha' : a.toNat ≤ 0xF4 := UInt8.le_iff_toNat_le.mp (of_decide_eq_true ha')
    have hlow := of_decide_eq_true hlow
    have hhigh := of_decide_eq_true hhigh
    have hv := val_ofNat
      (n := a.toNat % 8 * 262144 + b.toNat % 64 * 4096 + b'.toNat % 64 * 64 + b''.toNat % 64)
      (by unfold Nat.isValidChar; omega)
    refine ⟨b, b', b'', t, rfl, hb.1, hb'.1, hb''.1, by omega, ?_⟩
    rw [String.utf8EncodeChar, hv, if_neg (by omega), if_neg (by omega), if_neg (by omega),
      ofNat_eq (b := a) (by omega), ofNat_eq (b := b) (by omega), ofNat_eq (b := b') (by omega),
      ofNat_eq (b := b'') (by omega)]

def Glyph.ofByte (b : UInt8) : Glyph := .char (Char.ofNat b.toNat)

theorem Glyph.bytes_ofByte {b : UInt8} (h : b.toNat < 0x80) : (Glyph.ofByte b).bytes = [b] :=
  encode_ascii h

theorem firstGlyph_ascii {a : UInt8} (h : a.toNat < 0x80) (s : Bytes) :
    firstGlyph a s = (.ofByte a, 0) := by
  rw [firstGlyph, if_pos (UInt8.lt_iff_toNat_lt.mpr h), Glyph.ofByte]

private theorem not_lt_of_le {a : UInt8} (h : 0x80 ≤ a.toNat) : ¬a < 0x80 := by
  rw [UInt8.lt_iff_toNat_lt]
  exact Nat.not_lt.mpr h

private theorem firstGlyph_pair {a : UInt8} {s : Bytes} {c : Char} (h : 0x80 ≤ a.toNat)
    (hp : pair? a s = some c) : firstGlyph a s = (.char c, 1) := by
  rw [firstGlyph, if_neg (not_lt_of_le h), hp]

private theorem firstGlyph_triple {a : UInt8} {s : Bytes} {c : Char} (h : 0x80 ≤ a.toNat)
    (hp : pair? a s = none) (ht : triple? a s = some c) : firstGlyph a s = (.char c, 2) := by
  rw [firstGlyph, if_neg (not_lt_of_le h), hp, ht]

private theorem firstGlyph_quad {a : UInt8} {s : Bytes} {c : Char} (h : 0x80 ≤ a.toNat)
    (hp : pair? a s = none) (ht : triple? a s = none) (hq : quad? a s = some c) :
    firstGlyph a s = (.char c, 3) := by
  rw [firstGlyph, if_neg (not_lt_of_le h), hp, ht, hq]

/-- What the first glyph is when it does not start with a byte below `0x80`. -/
private theorem firstGlyph_cases {a : UInt8} (h : 0x80 ≤ a.toNat) (s : Bytes) :
    (∃ c, pair? a s = some c ∧ firstGlyph a s = (.char c, 1)) ∨
    (∃ c, triple? a s = some c ∧ firstGlyph a s = (.char c, 2)) ∨
    (∃ c, quad? a s = some c ∧ firstGlyph a s = (.char c, 3)) ∨
    firstGlyph a s = (.stray a, 0) := by
  cases hp : pair? a s with
  | some c => exact .inl ⟨c, rfl, firstGlyph_pair h hp⟩
  | none =>
    cases ht : triple? a s with
    | some c => exact .inr (.inl ⟨c, rfl, firstGlyph_triple h hp ht⟩)
    | none =>
      cases hq : quad? a s with
      | some c => exact .inr (.inr (.inl ⟨c, rfl, firstGlyph_quad h hp ht hq⟩))
      | none => exact .inr (.inr (.inr (by rw [firstGlyph, if_neg (not_lt_of_le h), hp, ht, hq])))

private theorem firstGlyph_bytes (a : UInt8) (s : Bytes) :
    ∃ t u, s = t ++ u ∧ (firstGlyph a s).2 = t.length ∧ (firstGlyph a s).1.bytes = a :: t := by
  by_cases h : a.toNat < 0x80
  · rw [firstGlyph_ascii h]
    exact ⟨[], s, rfl, rfl, encode_ascii h⟩
  · rcases firstGlyph_cases (Nat.not_lt.mp h) s with
      ⟨c, hc, hg⟩ | ⟨c, hc, hg⟩ | ⟨c, hc, hg⟩ | hg
    · obtain ⟨b, u, rfl, -, -, he⟩ := pair?_eq_some hc
      exact ⟨[b], u, rfl, by rw [hg]; rfl, by rw [hg]; exact he⟩
    · obtain ⟨b, b', u, rfl, -, -, -, he⟩ := triple?_eq_some hc
      exact ⟨[b, b'], u, rfl, by rw [hg]; rfl, by rw [hg]; exact he⟩
    · obtain ⟨b, b', b'', u, rfl, -, -, -, -, he⟩ := quad?_eq_some hc
      exact ⟨[b, b', b''], u, rfl, by rw [hg]; rfl, by rw [hg]; exact he⟩
    · rw [hg]
      exact ⟨[], s, rfl, rfl, rfl⟩

private theorem ofGlyphs_glyphsAfter (k : Nat) (s : Bytes) :
    ofGlyphs (glyphsAfter k s) = s.drop k := by
  induction s generalizing k with
  | nil => rw [glyphsAfter, List.drop_nil, ofGlyphs, List.flatMap_nil]
  | cons a s ih =>
    cases k with
    | zero =>
      obtain ⟨t, u, hs, hn, hb⟩ := firstGlyph_bytes a s
      rw [glyphsAfter, ofGlyphs, List.flatMap_cons, ← ofGlyphs, ih, hb, hn, List.drop_zero]
      rw [hs, List.drop_left, List.cons_append]
    | succ k => rw [glyphsAfter, ih, List.drop_succ_cons]

theorem ofGlyphs_glyphs (s : Bytes) : ofGlyphs (glyphs s) = s := ofGlyphs_glyphsAfter 0 s

section Boundary

variable {c : UInt8} (hc : isTail c = false)
include hc

private theorem pair?_append (a : UInt8) (s t : Bytes) : pair? a (s ++ c :: t) = pair? a s := by
  match s with
  | [] => simp [pair?, hc]
  | b :: s => rfl

private theorem triple?_append (a : UInt8) (s t : Bytes) :
    triple? a (s ++ c :: t) = triple? a s := by
  match s, t with
  | [], [] => rfl
  | [], _ :: _ => simp [triple?, hc]
  | [b], t => simp [triple?, hc]
  | b :: b' :: s, t => rfl

private theorem quad?_append (a : UInt8) (s t : Bytes) : quad? a (s ++ c :: t) = quad? a s := by
  match s, t with
  | [], [] => rfl
  | [], [_] => rfl
  | [], _ :: _ :: _ => simp [quad?, hc]
  | [b], [] => rfl
  | [b], _ :: _ => simp [quad?, hc]
  | [b, b'], t => simp [quad?, hc]
  | b :: b' :: b'' :: s, t => rfl

private theorem firstGlyph_append (a : UInt8) (s t : Bytes) :
    firstGlyph a (s ++ c :: t) = firstGlyph a s := by
  rw [firstGlyph, firstGlyph, pair?_append hc, triple?_append hc, quad?_append hc]

private theorem glyphsAfter_append (k : Nat) (s t : Bytes) (hk : k ≤ s.length) :
    glyphsAfter k (s ++ c :: t) = glyphsAfter k s ++ glyphs (c :: t) := by
  induction s generalizing k with
  | nil =>
    obtain rfl : k = 0 := by simpa using hk
    rfl
  | cons a s ih =>
    cases k with
    | zero =>
      rw [List.cons_append, glyphsAfter, glyphsAfter, firstGlyph_append hc, List.cons_append]
      obtain ⟨t', u, hs, hn, -⟩ := firstGlyph_bytes a s
      rw [ih _ (by rw [hn, hs, List.length_append]; exact Nat.le_add_right _ _)]
    | succ k =>
      rw [List.cons_append, glyphsAfter, glyphsAfter, ih k (Nat.le_of_succ_le_succ hk)]

/-- A text may be cut into glyphs before a byte that continues no character. -/
theorem glyphs_append_cons (s t : Bytes) : glyphs (s ++ c :: t) = glyphs s ++ glyphs (c :: t) :=
  glyphsAfter_append hc 0 s t (Nat.zero_le _)

end Boundary

private theorem isTail_ascii {c : UInt8} (hc : c.toNat < 0x80) : isTail c = false := by
  cases h : isTail c with
  | false => rfl
  | true =>
    have := (isTail_iff.mp h).1
    omega

theorem glyphs_append {c : UInt8} (hc : c.toNat < 0x80) (s t : Bytes) :
    glyphs (s ++ c :: t) = glyphs s ++ .ofByte c :: glyphs t := by
  have hcons : glyphs (c :: t) = .ofByte c :: glyphs t := by
    rw [glyphs, glyphsAfter, firstGlyph_ascii hc]
    rfl
  rw [glyphs_append_cons (isTail_ascii hc), hcons]

private theorem toNat_ofNat {n : Nat} (h : n < 256) : (UInt8.ofNat n).toNat = n :=
  UInt8.toNat_ofNat_of_lt' h

private theorem isTail_ofNat_of_le {n : Nat} (hlow : 192 ≤ n) (hhigh : n < 256) :
    isTail (UInt8.ofNat n) = false := by
  cases h : isTail (UInt8.ofNat n) with
  | false => rfl
  | true =>
    rw [isTail_iff, toNat_ofNat hhigh] at h
    omega

theorem exists_head_encode (c : Char) :
    ∃ b t, String.utf8EncodeChar c = b :: t ∧ isTail b = false := by
  rw [String.utf8EncodeChar]
  generalize c.val.toNat = v
  split
  next h => exact ⟨_, _, rfl, isTail_ascii (by rw [toNat_ofNat (by omega)]; omega)⟩
  next =>
    split
    · exact ⟨_, _, rfl, isTail_ofNat_of_le (by omega) (by omega)⟩
    · split
      · exact ⟨_, _, rfl, isTail_ofNat_of_le (by omega) (by omega)⟩
      · exact ⟨_, _, rfl, isTail_ofNat_of_le (by omega) (by omega)⟩

private theorem isTail_ofNat (n : Nat) : isTail (UInt8.ofNat (n % 64 + 128)) = true := by
  rw [isTail_iff, toNat_ofNat (by omega)]
  omega

private theorem tailBits_ofNat (n : Nat) : tailBits (UInt8.ofNat (n % 64 + 128)) = n % 64 := by
  rw [tailBits, toNat_ofNat (by omega)]
  omega

private theorem ofNat_le_ofNat {m n : Nat} (hn : n < 256) (h : m ≤ n) :
    UInt8.ofNat m ≤ UInt8.ofNat n := by
  rw [UInt8.le_iff_toNat_le, toNat_ofNat (by omega), toNat_ofNat hn]
  exact h

private theorem pair?_encode {v : Nat} (hlow : 0x80 ≤ v) (hhigh : v ≤ 0x7FF) (s : Bytes) :
    pair? (UInt8.ofNat (v / 64 % 32 + 192)) (UInt8.ofNat (v % 64 + 128) :: s) =
      some (Char.ofNat v) := by
  have hl : 0xC2 ≤ UInt8.ofNat (v / 64 % 32 + 192) :=
    ofNat_le_ofNat (m := 0xC2) (by omega) (by omega)
  have hh : UInt8.ofNat (v / 64 % 32 + 192) ≤ 0xDF :=
    ofNat_le_ofNat (n := 0xDF) (by omega) (by omega)
  have hn : (v / 64 % 32 + 192) % 32 * 64 + v % 64 = v := by omega
  rw [pair?, isTail_ofNat, tailBits_ofNat, toNat_ofNat (by omega), decide_eq_true hl,
    decide_eq_true hh, hn]
  rfl

private theorem triple?_encode {v : Nat} (hlow : 0x800 ≤ v) (hhigh : v ≤ 0xFFFF)
    (hv : v.isValidChar) (s : Bytes) :
    triple? (UInt8.ofNat (v / 4096 % 16 + 224))
      (UInt8.ofNat (v / 64 % 64 + 128) :: UInt8.ofNat (v % 64 + 128) :: s) =
      some (Char.ofNat v) := by
  have hl : 0xE0 ≤ UInt8.ofNat (v / 4096 % 16 + 224) :=
    ofNat_le_ofNat (m := 0xE0) (by omega) (by omega)
  have hh : UInt8.ofNat (v / 4096 % 16 + 224) ≤ 0xEF :=
    ofNat_le_ofNat (n := 0xEF) (by omega) (by omega)
  have hn : (v / 4096 % 16 + 224) % 16 * 4096 + v / 64 % 64 * 64 + v % 64 = v := by omega
  have hgap : (decide (0xD800 ≤ v) && decide (v ≤ 0xDFFF)) = false := by
    unfold Nat.isValidChar at hv
    simp only [Bool.and_eq_false_iff, decide_eq_false_iff_not]
    omega
  rw [triple?, isTail_ofNat, isTail_ofNat, tailBits_ofNat, tailBits_ofNat,
    toNat_ofNat (by omega), decide_eq_true hl, decide_eq_true hh, hn, hgap, decide_eq_true hlow]
  rfl

private theorem quad?_encode {v : Nat} (hlow : 0x10000 ≤ v) (hhigh : v ≤ 0x10FFFF) (s : Bytes) :
    quad? (UInt8.ofNat (v / 262144 % 8 + 240))
      (UInt8.ofNat (v / 4096 % 64 + 128) :: UInt8.ofNat (v / 64 % 64 + 128) ::
        UInt8.ofNat (v % 64 + 128) :: s) =
      some (Char.ofNat v) := by
  have hl : 0xF0 ≤ UInt8.ofNat (v / 262144 % 8 + 240) :=
    ofNat_le_ofNat (m := 0xF0) (by omega) (by omega)
  have hh : UInt8.ofNat (v / 262144 % 8 + 240) ≤ 0xF4 :=
    ofNat_le_ofNat (n := 0xF4) (by omega) (by omega)
  have hn : (v / 262144 % 8 + 240) % 8 * 262144 + v / 4096 % 64 * 4096 + v / 64 % 64 * 64 +
      v % 64 = v := by
    omega
  rw [quad?, isTail_ofNat, isTail_ofNat, isTail_ofNat, tailBits_ofNat, tailBits_ofNat,
    tailBits_ofNat, toNat_ofNat (by omega), decide_eq_true hl, decide_eq_true hh, hn,
    decide_eq_true hlow, decide_eq_true hhigh]
  rfl

private theorem pair?_eq_none {a : UInt8} (h : 0xE0 ≤ a.toNat) (s : Bytes) : pair? a s = none := by
  have ha : ¬a ≤ 0xDF := by
    rw [UInt8.le_iff_toNat_le]
    exact Nat.not_le.mpr h
  match s with
  | [] => rfl
  | b :: t => simp [pair?, ha]

private theorem triple?_eq_none {a : UInt8} (h : 0xF0 ≤ a.toNat) (s : Bytes) :
    triple? a s = none := by
  have ha : ¬a ≤ 0xEF := by
    rw [UInt8.le_iff_toNat_le]
    exact Nat.not_le.mpr h
  match s with
  | [] => rfl
  | [_] => rfl
  | b :: b' :: t => simp [triple?, ha]

private theorem glyphs_cons (a : UInt8) (s : Bytes) :
    glyphs (a :: s) = (firstGlyph a s).1 :: glyphsAfter (firstGlyph a s).2 s := rfl

theorem glyphs_encode (c : Char) (s : Bytes) :
    glyphs (String.utf8EncodeChar c ++ s) = .char c :: glyphs s := by
  have hc : Char.ofNat c.val.toNat = c := Char.ofNat_toNat c
  have hv : c.val.toNat.isValidChar := c.valid
  have hmax : c.val.toNat ≤ 0x10FFFF := by
    unfold Nat.isValidChar at hv
    omega
  rw [String.utf8EncodeChar]
  generalize c.val.toNat = v at *
  by_cases h1 : v ≤ 127
  · have ha : (UInt8.ofNat v).toNat = v := toNat_ofNat (by omega)
    rw [if_pos h1, List.singleton_append, glyphs_cons, firstGlyph_ascii (by omega), Glyph.ofByte,
      ha, hc]
    rfl
  rw [if_neg h1]
  by_cases h2 : v ≤ 2047
  · have ha : (UInt8.ofNat (v / 64 % 32 + 192)).toNat = v / 64 % 32 + 192 := toNat_ofNat (by omega)
    have hp := pair?_encode (by omega) h2 s
    rw [if_pos h2, List.cons_append, List.singleton_append, glyphs_cons,
      firstGlyph_pair (by omega) hp, hc]
    rfl
  rw [if_neg h2]
  by_cases h3 : v ≤ 65535
  · have ha : (UInt8.ofNat (v / 4096 % 16 + 224)).toNat = v / 4096 % 16 + 224 :=
      toNat_ofNat (by omega)
    have ht := triple?_encode (by omega) h3 hv s
    rw [if_pos h3, List.cons_append, List.cons_append, List.singleton_append, glyphs_cons,
      firstGlyph_triple (by omega) (pair?_eq_none (by omega) _) ht, hc]
    rfl
  · have ha : (UInt8.ofNat (v / 262144 % 8 + 240)).toNat = v / 262144 % 8 + 240 :=
      toNat_ofNat (by omega)
    have hq := quad?_encode (by omega) hmax s
    rw [if_neg h3, List.cons_append, List.cons_append, List.cons_append, List.singleton_append,
      glyphs_cons, firstGlyph_quad (by omega) (pair?_eq_none (by omega) _)
        (triple?_eq_none (by omega) _) hq, hc]
    rfl

theorem glyphs_ofGlyphs (cs : List Char) :
    glyphs (ofGlyphs (cs.map Glyph.char)) = cs.map Glyph.char := by
  induction cs with
  | nil => rfl
  | cons c cs ih =>
    rw [List.map_cons, ofGlyphs, List.flatMap_cons, ← ofGlyphs, Glyph.bytes, glyphs_encode, ih]

private theorem stray_of_mem_glyphsAfter {k : Nat} {s : Bytes} {a : UInt8}
    (h : Glyph.stray a ∈ glyphsAfter k s) : 0x80 ≤ a.toNat := by
  induction s generalizing k with
  | nil => cases h
  | cons b s ih =>
    cases k with
    | succ k => exact ih h
    | zero =>
      rw [glyphsAfter, List.mem_cons] at h
      rcases h with h | h
      · by_cases hb : b.toNat < 0x80
        · rw [firstGlyph_ascii hb] at h
          cases h
        · have hb := Nat.not_lt.mp hb
          rcases firstGlyph_cases hb s with ⟨c, -, hg⟩ | ⟨c, -, hg⟩ | ⟨c, -, hg⟩ | hg
          all_goals rw [hg] at h
          all_goals cases h
          exact hb
      · exact ih h

private theorem le_of_mem_encode {c : Char} (hc : 0x80 ≤ c.val.toNat) {b : UInt8}
    (hb : b ∈ String.utf8EncodeChar c) : 0x80 ≤ b.toNat := by
  rw [String.utf8EncodeChar, if_neg (by omega)] at hb
  generalize c.val.toNat = v at *
  have hle : ∀ n, 0x80 ≤ n → n < 256 → b = UInt8.ofNat n → 0x80 ≤ b.toNat := by
    rintro n hlow hhigh rfl
    rw [toNat_ofNat hhigh]
    exact hlow
  split at hb
  · simp only [List.mem_cons, List.not_mem_nil, or_false] at hb
    rcases hb with hb | hb <;> exact hle _ (by omega) (by omega) hb
  · split at hb
    · simp only [List.mem_cons, List.not_mem_nil, or_false] at hb
      rcases hb with hb | hb | hb <;> exact hle _ (by omega) (by omega) hb
    · simp only [List.mem_cons, List.not_mem_nil, or_false] at hb
      rcases hb with hb | hb | hb | hb <;> exact hle _ (by omega) (by omega) hb

private theorem eq_ofByte_of_mem_bytes {g : Glyph} (hg : ∀ a, g = .stray a → 0x80 ≤ a.toNat)
    {b : UInt8} (hb : b.toNat < 0x80) (h : b ∈ g.bytes) : g = .ofByte b := by
  cases g with
  | stray a =>
    have ha := hg a rfl
    obtain rfl : b = a := by simpa [Glyph.bytes] using h
    omega
  | char c =>
    by_cases hc : 0x80 ≤ c.val.toNat
    · have := le_of_mem_encode hc h
      omega
    · rw [Glyph.bytes, String.utf8EncodeChar, if_pos (by omega), List.mem_singleton] at h
      rw [Glyph.ofByte, h, toNat_ofNat (by omega)]
      exact congrArg Glyph.char (Char.ofNat_toNat c).symm

private theorem count_bytes {g : Glyph} (hg : ∀ a, g = .stray a → 0x80 ≤ a.toNat) {b : UInt8}
    (hb : b.toNat < 0x80) : g.bytes.count b = if g = .ofByte b then 1 else 0 := by
  split
  next h => rw [h, Glyph.bytes_ofByte hb, List.count_singleton_self]
  next h => exact List.count_eq_zero.mpr fun hmem => h (eq_ofByte_of_mem_bytes hg hb hmem)

/-- A byte below `0x80` stands in a text as often as its glyph. -/
theorem count_glyphs {b : UInt8} (hb : b.toNat < 0x80) (s : Bytes) :
    (glyphs s).count (.ofByte b) = s.count b := by
  have hcount : ∀ gs : List Glyph, (∀ a, Glyph.stray a ∈ gs → 0x80 ≤ a.toNat) →
      (ofGlyphs gs).count b = gs.count (.ofByte b) := by
    intro gs hgs
    induction gs with
    | nil => rfl
    | cons g gs ih =>
      have hg : ∀ a, g = .stray a → 0x80 ≤ a.toNat := fun a ha =>
        hgs a (ha ▸ List.mem_cons_self)
      rw [ofGlyphs, List.flatMap_cons, ← ofGlyphs, List.count_append, count_bytes hg hb,
        ih fun a ha => hgs a (List.mem_cons_of_mem g ha), List.count_cons, Nat.add_comm]
      simp only [beq_iff_eq]
  rw [← hcount (glyphs s) fun a ha => stray_of_mem_glyphsAfter ha, ofGlyphs_glyphs]

theorem ofByte_mem_glyphs {b : UInt8} (hb : b.toNat < 0x80) {s : Bytes} :
    .ofByte b ∈ glyphs s ↔ b ∈ s := by
  rw [← List.count_pos_iff, ← List.count_pos_iff, count_glyphs hb]

end ScalableVector.Text
