import ScalableVector.Listing.Basic
import ScalableVector.Proofs.LowerCase

/-!
# Joined texts

Operands that are joined with commas and blanks behind a name are found again, provided that each
of them is tidy: it has no white space at its ends, holds no comment, and keeps its commas between
brackets that it closes itself.
-/

namespace ScalableVector.Text

section Trim

variable {p : Glyph → Bool}

private theorem mem_dropWhile {g : Glyph} {gs : List Glyph} (h : g ∈ gs) (hg : p g = false) :
    g ∈ gs.dropWhile p := by
  rw [← List.takeWhile_append_dropWhile (p := p) (l := gs), List.mem_append] at h
  rcases h with h | h
  · have := List.all_eq_true.mp List.all_takeWhile g h
    rw [hg] at this
    cases this
  · exact h

private theorem mem_trimGlyphs {g : Glyph} {gs : List Glyph} (h : g ∈ gs) (hg : p g = false) :
    g ∈ trimGlyphs p gs := by
  rw [trimGlyphs, List.mem_reverse]
  exact mem_dropWhile (List.mem_reverse.mpr (mem_dropWhile h hg)) hg

private theorem dropWhile_append {as : List Glyph} (h : ∀ g ∈ as, p g = true) (g : Glyph)
    (gs : List Glyph) (hg : p g = false) : (as ++ g :: gs).dropWhile p = g :: gs := by
  rw [List.dropWhile_append_of_pos h, List.dropWhile_cons_of_neg (by rw [hg]; decide)]

theorem trimGlyphs_eq (as bs : List Glyph) {gs : List Glyph} (ha : ∀ g ∈ as, p g = true)
    (hb : ∀ g ∈ bs, p g = true) (hs : ∃ g gs', gs = g :: gs' ∧ p g = false)
    (he : ∃ gs' g, gs = gs' ++ [g] ∧ p g = false) : trimGlyphs p (as ++ gs ++ bs) = gs := by
  have hfront : (as ++ gs ++ bs).dropWhile p = gs ++ bs := by
    obtain ⟨g, gs', rfl, hg⟩ := hs
    rw [List.append_assoc, List.cons_append, dropWhile_append ha g _ hg]
  have hback : (bs.reverse ++ gs.reverse).dropWhile p = gs.reverse := by
    obtain ⟨gs', g, rfl, hg⟩ := he
    rw [List.reverse_append, List.reverse_singleton, List.singleton_append,
      dropWhile_append (fun b hb' => hb b (List.mem_reverse.mp hb')) g _ hg]
  rw [trimGlyphs, hfront, List.reverse_append, hback, List.reverse_reverse]

end Trim

def StartsInk (s : Bytes) : Prop := ∃ g gs, glyphs s = g :: gs ∧ g.isBlank = false

def EndsInk (s : Bytes) : Prop := ∃ gs g, glyphs s = gs ++ [g] ∧ g.isBlank = false

theorem StartsInk.append {s : Bytes} (h : StartsInk s) {c : UInt8} (hc : c.toNat < 0x80)
    (t : Bytes) : StartsInk (s ++ c :: t) := by
  obtain ⟨g, gs, hs, hg⟩ := h
  exact ⟨g, _, by rw [glyphs_append hc, hs, List.cons_append], hg⟩

theorem EndsInk.append {t : Bytes} (h : EndsInk t) {c : UInt8} (hc : c.toNat < 0x80) (s : Bytes) :
    EndsInk (s ++ c :: t) := by
  obtain ⟨gs, g, ht, hg⟩ := h
  refine ⟨glyphs s ++ .ofByte c :: gs, g, ?_, hg⟩
  rw [glyphs_append hc, ht, List.append_assoc, List.cons_append]

theorem trim_eq_self {s : Bytes} (hs : StartsInk s) (he : EndsInk s) : trim s = s := by
  have h := trimGlyphs_eq [] [] (by simp) (by simp) hs he
  rw [List.nil_append, List.append_nil] at h
  rw [trim, h, ofGlyphs_glyphs]

theorem trim_cons_blank {s : Bytes} (hs : StartsInk s) (he : EndsInk s) :
    trim (0x20 :: s) = s := by
  have h := trimGlyphs_eq [.ofByte 0x20] [] (by decide) (by simp) hs he
  have hg : glyphs (0x20 :: s) = [.ofByte 0x20] ++ glyphs s ++ [] := by
    rw [List.append_nil]
    exact glyphs_append (c := 0x20) (by decide) [] s
  rw [trim, hg, h, ofGlyphs_glyphs]

theorem trim_append_blank {s : Bytes} (hs : StartsInk s) (he : EndsInk s) :
    trim (s ++ [0x20]) = s := by
  have h := trimGlyphs_eq [] [.ofByte 0x20] (by simp) (by decide) hs he
  rw [List.nil_append] at h
  rw [trim, glyphs_append (c := 0x20) (by decide), show glyphs [] = [] from rfl, h,
    ofGlyphs_glyphs]

theorem mem_trim {s : Bytes} {b : UInt8} (hb : b.toNat < 0x80)
    (hink : (Glyph.ofByte b).isBlank = false) (h : b ∈ s) : b ∈ trim s := by
  have hg := mem_trimGlyphs ((ofByte_mem_glyphs hb).mpr h) hink
  rw [trim, ofGlyphs, List.mem_flatMap]
  refine ⟨_, hg, ?_⟩
  rw [Glyph.bytes_ofByte hb, List.mem_singleton]

section Comment

open Line (dropComment)

theorem dropComment_cons {c : UInt8} (hc : c ≠ 0x2f) (s : Bytes) :
    dropComment (c :: s) = c :: dropComment s := by
  cases s with
  | nil => rfl
  | cons d s => rw [dropComment, if_neg fun h => hc h.1]

/-- A comment does not start across a byte that is no slash. -/
theorem dropComment_append {s : Bytes} (h : dropComment s = s) {c : UInt8} (hc : c ≠ 0x2f)
    (t : Bytes) : dropComment (s ++ c :: t) = s ++ c :: dropComment t := by
  induction s with
  | nil => exact dropComment_cons hc t
  | cons a s ih =>
    cases s with
    -- the last byte of the text may be a slash: the byte behind it decides
    | nil =>
      rw [List.singleton_append, dropComment, if_neg fun h => hc h.2, dropComment_cons hc]
      rfl
    | cons b s =>
      rw [dropComment] at h
      split at h
      next => cases h
      next hslash =>
        rw [List.cons_append, List.cons_append, dropComment, if_neg hslash, ← List.cons_append,
          ih (List.cons.inj h).2]
        rfl

theorem dropComment_of_count {s : Bytes} (h : s.count 0x2f ≤ 1) : dropComment s = s := by
  induction s with
  | nil => rfl
  | cons c s ih =>
    have hs : s.count 0x2f ≤ (c :: s).count 0x2f := List.count_le_count_cons
    cases s with
    | nil => rfl
    | cons d s =>
      rw [dropComment, ih (by omega)]
      split
      next hslash =>
        rw [hslash.1, hslash.2, List.count_cons_self, List.count_cons_self] at h
        omega
      next => rfl

end Comment

theorem cut_cons {c : UInt8} {depth : Int} (h : c ≠ 0x2c ∨ depth ≠ 0) (s : Bytes) :
    cut depth (c :: s) = (c :: (cut (depthAfter depth c) s).1, (cut (depthAfter depth c) s).2) := by
  rw [cut, if_neg (by rintro ⟨hc, hd⟩; rcases h with h | h <;> contradiction)]

theorem cut_comma (s : Bytes) :
    cut 0 (0x2c :: s) = ([], (cut 0 s).1 :: (cut 0 s).2) := by
  rw [cut, if_pos ⟨rfl, rfl⟩]

def isFlat (c : UInt8) : Bool := !opens c && !closes c

theorem depthAfter_flat {c : UInt8} (h : isFlat c = true) (depth : Int) :
    depthAfter depth c = depth := by
  rw [isFlat, Bool.and_eq_true, Bool.not_eq_true', Bool.not_eq_true'] at h
  rw [depthAfter, h.1, h.2]
  rfl

/-- A text without brackets passes whole if it has no comma or stands between brackets. -/
theorem cut_append {depth : Int} {s : Bytes} (hflat : ∀ c ∈ s, isFlat c = true)
    (hcomma : 0x2c ∉ s ∨ depth ≠ 0) (t : Bytes) :
    cut depth (s ++ t) = (s ++ (cut depth t).1, (cut depth t).2) := by
  induction s with
  | nil => rfl
  | cons c s ih =>
    have hc : c ≠ 0x2c ∨ depth ≠ 0 :=
      hcomma.imp_left fun h heq => h (heq ▸ List.mem_cons_self)
    rw [List.cons_append, cut_cons hc, depthAfter_flat (hflat c List.mem_cons_self),
      ih (fun d hd => hflat d (List.mem_cons_of_mem c hd))
        (hcomma.imp_left fun h hmem => h (List.mem_cons_of_mem c hmem))]
    rfl

private theorem mem_cut {b : UInt8} (depth : Int) {s : Bytes} (h : b ∈ s) :
    b = 0x2c ∨ ∃ part ∈ (cut depth s).1 :: (cut depth s).2, b ∈ part := by
  induction s generalizing depth with
  | nil => cases h
  | cons c s ih =>
    by_cases hc : c = 0x2c ∧ depth = 0
    · obtain ⟨rfl, rfl⟩ := hc
      rw [cut_comma]
      rcases List.mem_cons.mp h with h | h
      · exact .inl h
      · rcases ih 0 h with h | ⟨part, hpart, hb⟩
        · exact .inl h
        · exact .inr ⟨part, List.mem_cons_of_mem _ hpart, hb⟩
    · rw [cut_cons (Decidable.not_and_iff_not_or_not.mp hc)]
      rcases List.mem_cons.mp h with rfl | h
      · exact .inr ⟨_, List.mem_cons_self, List.mem_cons_self⟩
      · rcases ih (depthAfter depth c) h with h | ⟨part, hpart, hb⟩
        · exact .inl h
        · rcases List.mem_cons.mp hpart with rfl | hpart
          · exact .inr ⟨_, List.mem_cons_self, List.mem_cons_of_mem c hb⟩
          · exact .inr ⟨part, List.mem_cons_of_mem _ hpart, hb⟩

/-- A text that keeps its place among operands. -/
structure Tidy (s : Bytes) : Prop where
  starts : StartsInk s
  ends : EndsInk s
  comment : Line.dropComment s = s
  whole : ∀ t, cut 0 (s ++ t) = (s ++ (cut 0 t).1, (cut 0 t).2)

theorem glyphs_ne_nil {s : Bytes} (h : s ≠ []) : glyphs s ≠ [] := by
  intro hnil
  apply h
  rw [← ofGlyphs_glyphs s, hnil]
  rfl

def isMarkByte (c : UInt8) : Bool := c == 0x2c || c == 0x2f || opens c || closes c

theorem ofByte_mark {c : UInt8} (h : isMarkByte c = true) :
    c.toNat < 0x80 ∧ (Glyph.ofByte c).isDelimiter = true ∧ (Glyph.ofByte c).isBlank = false := by
  simp only [isMarkByte, opens, closes, Bool.or_eq_true, beq_iff_eq] at h
  rcases h with ((rfl | rfl) | rfl | rfl) | rfl | rfl
  all_goals decide +kernel

theorem mark_of_not_flat {c : UInt8} (h : isFlat c = false) : isMarkByte c = true := by
  rw [isFlat, Bool.and_eq_false_iff, Bool.not_eq_false', Bool.not_eq_false'] at h
  rcases h with h | h
  · rw [isMarkByte, h, Bool.or_true, Bool.true_or]
  · rw [isMarkByte, h, Bool.or_true]

private theorem flat_of_mark {s : Bytes} {d : UInt8} (hd : isFlat d = true)
    (h : ∀ c ∈ s, isMarkByte c = true → c = d) : ∀ c ∈ s, isFlat c = true := by
  intro c hc
  cases hflat : isFlat c with
  | true => rfl
  | false => rw [← hflat, h c hc (mark_of_not_flat hflat), hd]

/-- A text without white space, commas and brackets is tidy if it has one slash at most. -/
theorem tidy_of_ink {s : Bytes} (hne : s ≠ []) (hink : ∀ g ∈ glyphs s, g.isBlank = false)
    (hmark : ∀ c ∈ s, isMarkByte c = true → c = 0x2f) (hslash : s.count 0x2f ≤ 1) : Tidy s where
  starts := by
    cases h : glyphs s with
    | nil => exact absurd h (glyphs_ne_nil hne)
    | cons g gs => exact ⟨g, gs, h, hink g (h ▸ List.mem_cons_self)⟩
  ends := by
    have h := List.dropLast_concat_getLast (glyphs_ne_nil hne)
    exact ⟨_, _, h.symm, hink _ (List.getLast_mem _)⟩
  comment := dropComment_of_count hslash
  whole := by
    have hcomma : (0x2c : UInt8) ∉ s := fun hc => absurd (hmark _ hc rfl) (by decide)
    exact cut_append (flat_of_mark (by decide) hmark) (.inl hcomma)

private theorem isDelimiter_of_isBlank {g : Glyph} (h : g.isBlank = true) :
    g.isDelimiter = true := by
  cases g with
  | stray b => cases h
  | char c => exact Bool.or_eq_true_iff.mpr (.inl h)

theorem Glyph.isBlank_of_isDelimiter {g : Glyph} (h : g.isDelimiter = false) :
    g.isBlank = false := by
  cases hb : g.isBlank with
  | false => rfl
  | true =>
    rw [isDelimiter_of_isBlank hb] at h
    cases h

theorem Solid.isBlank {s : Bytes} (h : Solid s) {g : Glyph} (hg : g ∈ glyphs s) :
    g.isBlank = false := Glyph.isBlank_of_isDelimiter (h g hg)

theorem Solid.not_mem {s : Bytes} (h : Solid s) {c : UInt8} (hc : isMarkByte c = true) :
    c ∉ s := by
  intro hmem
  obtain ⟨hlow, hd, -⟩ := ofByte_mark hc
  have := h _ ((ofByte_mem_glyphs hlow).mpr hmem)
  rw [hd] at this
  cases this

theorem Solid.tidy {s : Bytes} (h : Solid s) (hne : s ≠ []) : Tidy s :=
  tidy_of_ink hne (fun _ hg => h.isBlank hg) (fun _ hc hm => absurd hc (h.not_mem hm))
    (by rw [List.count_eq_zero.mpr (h.not_mem rfl)]; exact Nat.zero_le 1)

/-- A text is tidy whose lower-case form has one slash, before its last byte. -/
theorem tidy_of_lower {s t : Bytes} {m : UInt8} (h : lower s = t ++ [0x2f, m]) (ht : Solid t)
    (hm : m.toNat < 0x80) (hink : (Glyph.ofByte m).isDelimiter = false) : Tidy s := by
  have hglyphs : (glyphs s).map Glyph.lower = glyphs t ++ [.ofByte 0x2f, .ofByte m] := by
    rw [← glyphs_lower, h, glyphs_append (by decide), ← List.nil_append [m], glyphs_append hm]
    rfl
  have hslash : m ≠ 0x2f := by
    rintro rfl
    revert hink
    decide
  -- lower case moves no delimiter, so each condition is read off the lower-case form
  refine tidy_of_ink ?_ ?_ ?_ ?_
  · rintro rfl
    exact absurd h (by simp [lower, glyphs, glyphsAfter, ofGlyphs])
  · intro g hg
    cases hb : g.isBlank with
    | false => rfl
    | true =>
      have hd := isDelimiter_of_isBlank hb
      have hmem := List.mem_map_of_mem (f := Glyph.lower) hg
      rw [hglyphs, Glyph.lower_delimiter hd] at hmem
      simp only [List.mem_append, List.mem_cons, List.not_mem_nil, or_false] at hmem
      rcases hmem with hmem | rfl | rfl
      · rw [ht g hmem] at hd
        cases hd
      · revert hb
        decide
      · rw [hink] at hd
        cases hd
  · intro c hc hmark
    obtain ⟨hlow, hd, -⟩ := ofByte_mark hmark
    rw [← List.count_pos_iff, ← count_lower hlow hd, List.count_pos_iff, h] at hc
    simp only [List.mem_append, List.mem_cons, List.not_mem_nil, or_false] at hc
    rcases hc with hc | rfl | rfl
    · exact absurd hc (ht.not_mem hmark)
    · rfl
    · rw [hink] at hd
      cases hd
  · rw [← count_lower (by decide) (by decide), h, List.count_append,
      List.count_eq_zero.mpr (ht.not_mem rfl), List.count_cons_self, List.count_cons_of_ne hslash]
    decide

theorem tidy_bracketed {s : Bytes} (h : ∀ c ∈ s, isMarkByte c = true → c = 0x2c) :
    Tidy (0x5b :: (s ++ [0x5d])) where
  starts := ⟨_, _, glyphs_append (c := 0x5b) (by decide) [] _, by decide⟩
  ends := ⟨_, _, glyphs_append (c := 0x5d) (by decide) (0x5b :: s) [], by decide⟩
  comment := by
    have hs : (0x2f : UInt8) ∉ s := fun hc => absurd (h _ hc rfl) (by decide)
    refine dropComment_of_count ?_
    rw [List.count_cons_of_ne (by decide), List.count_append, List.count_eq_zero.mpr hs]
    decide
  whole := by
    intro t
    have hdepth : depthAfter (depthAfter 0 0x5b) 0x5d = 0 := by decide
    rw [List.cons_append, List.append_assoc, cut_cons (.inl (by decide)),
      cut_append (flat_of_mark (by decide) h) (.inr (by decide)), List.singleton_append,
      cut_cons (.inl (by decide)), hdepth]
    simp only [List.cons_append, List.append_assoc, List.nil_append]

theorem mem_parts {s : Bytes} {c : UInt8} (hc : c ∈ s) (hmark : isMarkByte c = true) :
    c = 0x2c ∨ ∃ part ∈ parts s, c ∈ part := by
  obtain ⟨hlow, -, hink⟩ := ofByte_mark hmark
  rcases mem_cut 0 hc with h | ⟨part, hpart, hmem⟩
  · exact .inl h
  · have htrim := mem_trim hlow hink hmem
    refine .inr ⟨trim part, ?_, htrim⟩
    rw [parts]
    split
    -- a single empty part counts as no part, but this one holds the byte
    next first heq =>
      rw [heq] at hpart
      rw [List.mem_singleton.mp hpart] at htrim ⊢
      cases hfirst : trim first with
      | nil => rw [hfirst] at htrim; cases htrim
      | cons b u => exact List.mem_cons_self
    next first rest _ heq =>
      rw [heq, List.mem_cons] at hpart
      rcases hpart with rfl | hpart
      · exact List.mem_cons_self
      · exact List.mem_cons_of_mem _ (List.mem_map_of_mem hpart)

/-- Operand texts with commas and blanks between them. -/
def joined (texts : List Bytes) : Bytes := List.intercalate [0x2c, 0x20] texts

private theorem joined_cons (t u : Bytes) (us : List Bytes) :
    joined (t :: u :: us) = t ++ 0x2c :: 0x20 :: joined (u :: us) := by
  rw [joined, List.intercalate_cons_cons, List.append_assoc]
  rfl

private theorem cut_joined (t : Bytes) (ts : List Bytes) (h : ∀ u ∈ t :: ts, Tidy u) :
    cut 0 (joined (t :: ts)) = (t, ts.map (0x20 :: ·)) := by
  induction ts generalizing t with
  | nil =>
    have hwhole := (h t List.mem_cons_self).whole []
    rw [List.append_nil] at hwhole
    rw [joined, List.intercalate_singleton, hwhole, cut, List.append_nil]
    rfl
  | cons u us ih =>
    rw [joined_cons, (h t List.mem_cons_self).whole, cut_comma, cut_cons (.inl (by decide)),
      depthAfter_flat (by decide), ih u fun v hv => h v (List.mem_cons_of_mem t hv),
      List.append_nil, List.map_cons]

private theorem map_trim_blank {texts : List Bytes} (h : ∀ t ∈ texts, Tidy t) :
    (texts.map (0x20 :: ·)).map trim = texts := by
  rw [List.map_map]
  refine Eq.trans (List.map_congr_left fun t ht => ?_) (List.map_id texts)
  exact trim_cons_blank (h t ht).starts (h t ht).ends

theorem Tidy.ne_nil {s : Bytes} (h : Tidy s) : s ≠ [] := by
  rintro rfl
  obtain ⟨g, gs, hg, -⟩ := h.starts
  cases hg

theorem parts_joined {texts : List Bytes} (h : ∀ t ∈ texts, Tidy t) :
    parts (joined texts) = texts := by
  cases texts with
  | nil => decide
  | cons t ts =>
    have ht := h t List.mem_cons_self
    have htrim : trim t = t := trim_eq_self ht.starts ht.ends
    have hrest := map_trim_blank fun u hu => h u (List.mem_cons_of_mem t hu)
    rw [parts, cut_joined t ts h]
    cases ts with
    | nil =>
      rw [List.map_nil]
      simp only [htrim, List.isEmpty_eq_false_iff.mpr ht.ne_nil]
      rfl
    | cons u us =>
      rw [List.map_cons] at hrest ⊢
      simp only [htrim, hrest]

theorem dropComment_joined {texts : List Bytes} (h : ∀ t ∈ texts, Tidy t) :
    Line.dropComment (joined texts) = joined texts := by
  cases texts with
  | nil => rfl
  | cons t ts =>
    induction ts generalizing t with
    | nil => rw [joined, List.intercalate_singleton, (h t List.mem_cons_self).comment]
    | cons u us ih =>
      rw [joined_cons, dropComment_append (h t List.mem_cons_self).comment (by decide),
        dropComment_cons (by decide), ih u fun v hv => h v (List.mem_cons_of_mem t hv)]

theorem endsInk_joined {t : Bytes} {ts : List Bytes} (h : ∀ u ∈ t :: ts, Tidy u) :
    EndsInk (joined (t :: ts)) := by
  induction ts generalizing t with
  | nil =>
    rw [joined, List.intercalate_singleton]
    exact (h t List.mem_cons_self).ends
  | cons u us ih =>
    have hends := ih fun v hv => h v (List.mem_cons_of_mem t hv)
    rw [joined_cons]
    exact (hends.append (c := 0x20) (by decide) []).append (c := 0x2c) (by decide) t

end ScalableVector.Text

namespace ScalableVector.Line

open Text (Tidy joined parts_joined)

def written (name : Bytes) (texts : List Bytes) : Bytes := name ++ 0x20 :: joined texts

private theorem trim_written {name : Bytes} (hname : Tidy name) {texts : List Bytes}
    (htexts : ∀ t ∈ texts, Tidy t) :
    Text.trim (dropComment (written name texts)) =
      if texts.isEmpty then name else written name texts := by
  rw [written, Text.dropComment_append hname.comment (by decide), Text.dropComment_joined htexts]
  cases texts with
  | nil => exact Text.trim_append_blank hname.starts hname.ends
  | cons t ts =>
    exact Text.trim_eq_self (hname.starts.append (by decide) _)
      ((Text.endsInk_joined htexts).append (by decide) _)

section Gap

variable {typed : Bytes} (h : ∀ b ∈ typed, (!endsName b) = true) {c : UInt8}
  (hc : endsName c = true)
include h hc

theorem name_append (rest : Bytes) : name (typed ++ c :: rest) = typed := by
  rw [name, List.takeWhile_append_of_pos h, List.takeWhile_cons_of_neg (by simp [hc]),
    List.append_nil]

theorem operands_append (rest : Bytes) : operands (typed ++ c :: rest) = Text.parts rest := by
  rw [operands, List.dropWhile_append_of_pos h, List.dropWhile_cons_of_neg (by simp [hc])]
  rfl

end Gap

private theorem name_self {typed : Bytes} (h : ∀ b ∈ typed, (!endsName b) = true) :
    name typed = typed := by
  have htake : name (typed ++ []) = typed ++ name [] := List.takeWhile_append_of_pos h
  rwa [List.append_nil, show name [] = [] from rfl, List.append_nil] at htake

private theorem operands_self {typed : Bytes} (h : ∀ b ∈ typed, (!endsName b) = true) :
    operands typed = [] := by
  have hdrop : (typed ++ []).dropWhile (fun c => !endsName c) = [] :=
    List.dropWhile_append_of_pos h
  rw [List.append_nil] at hdrop
  rw [operands, hdrop]
  decide

theorem split_written {typed : Bytes} (htyped : Tidy typed)
    (hend : ∀ b ∈ typed, endsName b = false) {texts : List Bytes} (htexts : ∀ t ∈ texts, Tidy t) :
    Text.trim (dropComment (written typed texts)) ≠ [] ∧
      name (Text.trim (dropComment (written typed texts))) = typed ∧
      operands (Text.trim (dropComment (written typed texts))) = texts := by
  have hend : ∀ b ∈ typed, (!endsName b) = true := fun b hb => by rw [hend b hb]; rfl
  rw [trim_written htyped htexts]
  cases texts with
  | nil => exact ⟨htyped.ne_nil, name_self hend, operands_self hend⟩
  | cons t ts =>
    refine ⟨fun h => htyped.ne_nil (List.append_eq_nil_iff.mp h).1, name_append hend rfl _, ?_⟩
    exact (operands_append hend rfl _).trans (parts_joined htexts)

end ScalableVector.Line
