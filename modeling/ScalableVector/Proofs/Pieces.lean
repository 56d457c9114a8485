import Mathlib.Data.List.Forall2
import ScalableVector.Proofs.Joined

/-!
# Padding and pieces

Trimming removes exactly the white space around a text, and a text is its pieces with commas
between them. So the parts of a text can be told from how it is written: as texts with white space
around them and commas between.
-/

namespace ScalableVector.Text

def Blank (s : Bytes) : Prop := ∀ g ∈ glyphs s, g.isBlank = true

/-- The second text is the first one with white space around it. -/
def Padded (ink s : Bytes) : Prop :=
  ∃ before after, Blank before ∧ Blank after ∧ s = before ++ ink ++ after

theorem blank_nil : Blank [] := fun _ h => by cases h

private theorem exists_chars {gs : List Glyph} (h : ∀ g ∈ gs, g.isBlank = true) :
    ∃ cs : List Char, gs = cs.map Glyph.char := by
  induction gs with
  | nil => exact ⟨[], rfl⟩
  | cons g gs ih =>
    rw [List.forall_mem_cons] at h
    obtain ⟨cs, rfl⟩ := ih h.2
    cases g with
    | char c => exact ⟨c :: cs, rfl⟩
    | stray b => cases h.1

private theorem glyphs_chars_append (cs : List Char) (t : Bytes) :
    glyphs (ofGlyphs (cs.map Glyph.char) ++ t) = cs.map Glyph.char ++ glyphs t := by
  induction cs with
  | nil => rfl
  | cons c cs ih =>
    rw [List.map_cons, ofGlyphs, List.flatMap_cons, ← ofGlyphs, Glyph.bytes, List.append_assoc,
      glyphs_encode, ih, List.cons_append]

theorem Blank.append_left {s : Bytes} (h : Blank s) (t : Bytes) :
    glyphs (s ++ t) = glyphs s ++ glyphs t := by
  obtain ⟨cs, hcs⟩ := exists_chars h
  rw [hcs, ← glyphs_chars_append, ← hcs, ofGlyphs_glyphs]

theorem Blank.append_right {t : Bytes} (h : Blank t) (s : Bytes) :
    glyphs (s ++ t) = glyphs s ++ glyphs t := by
  obtain ⟨cs, hcs⟩ := exists_chars h
  cases cs with
  | nil =>
    rw [List.map_nil] at hcs
    have ht : t = [] := by rw [← ofGlyphs_glyphs t, hcs]; rfl
    rw [ht, List.append_nil, ← ht, hcs, List.append_nil]
  | cons c cs =>
    -- white space starts with a byte that cannot complete a character in front of it
    obtain ⟨b, u, hb, htail⟩ := exists_head_encode c
    have ht : t = b :: (u ++ ofGlyphs (cs.map Glyph.char)) := by
      rw [← ofGlyphs_glyphs t, hcs, List.map_cons, ofGlyphs, List.flatMap_cons, Glyph.bytes, hb]
      rfl
    rw [ht]
    exact glyphs_append_cons htail s _

private theorem glyphs_ofGlyphs_blank {gs : List Glyph} (h : ∀ g ∈ gs, g.isBlank = true) :
    glyphs (ofGlyphs gs) = gs := by
  obtain ⟨cs, rfl⟩ := exists_chars h
  exact glyphs_ofGlyphs cs

private theorem blank_ofGlyphs {gs : List Glyph} (h : ∀ g ∈ gs, g.isBlank = true) :
    Blank (ofGlyphs gs) := by
  rwa [Blank, glyphs_ofGlyphs_blank h]

private theorem takeWhile_isBlank (gs : List Glyph) :
    ∀ g ∈ gs.takeWhile Glyph.isBlank, g.isBlank = true :=
  List.all_eq_true.mp List.all_takeWhile

private theorem exists_trimGlyphs (gs : List Glyph) :
    ∃ as bs, (∀ g ∈ as, g.isBlank = true) ∧ (∀ g ∈ bs, g.isBlank = true) ∧
      gs.dropWhile Glyph.isBlank = trimGlyphs Glyph.isBlank gs ++ bs ∧
      gs = as ++ trimGlyphs Glyph.isBlank gs ++ bs := by
  have hfront := List.takeWhile_append_dropWhile (p := Glyph.isBlank) (l := gs)
  have hback := List.takeWhile_append_dropWhile (p := Glyph.isBlank)
    (l := (gs.dropWhile Glyph.isBlank).reverse)
  have hmiddle : gs.dropWhile Glyph.isBlank = trimGlyphs Glyph.isBlank gs ++
      ((gs.dropWhile Glyph.isBlank).reverse.takeWhile Glyph.isBlank).reverse := by
    rw [trimGlyphs, ← List.reverse_append, hback, List.reverse_reverse]
  refine ⟨gs.takeWhile Glyph.isBlank, _, takeWhile_isBlank gs, ?_, hmiddle, ?_⟩
  · intro g hg
    exact takeWhile_isBlank _ g (List.mem_reverse.mp hg)
  · rw [List.append_assoc, ← hmiddle, hfront]

private theorem eq_ofGlyphs_trim {s : Bytes} {as bs : List Glyph}
    (h : glyphs s = as ++ trimGlyphs Glyph.isBlank (glyphs s) ++ bs) :
    s = ofGlyphs as ++ trim s ++ ofGlyphs bs := by
  rw [trim, ofGlyphs, ofGlyphs, ofGlyphs, ← List.flatMap_append, ← List.flatMap_append, ← h,
    ← ofGlyphs, ofGlyphs_glyphs]

theorem padded_trim (s : Bytes) : Padded (trim s) s := by
  obtain ⟨as, bs, has, hbs, -, hgs⟩ := exists_trimGlyphs (glyphs s)
  exact ⟨ofGlyphs as, ofGlyphs bs, blank_ofGlyphs has, blank_ofGlyphs hbs, eq_ofGlyphs_trim hgs⟩

theorem glyphs_trim (s : Bytes) : glyphs (trim s) = trimGlyphs Glyph.isBlank (glyphs s) := by
  obtain ⟨as, bs, has, hbs, -, hgs⟩ := exists_trimGlyphs (glyphs s)
  have hglyphs : glyphs s = as ++ glyphs (trim s) ++ bs := by
    rw [eq_ofGlyphs_trim hgs, (blank_ofGlyphs hbs).append_right, (blank_ofGlyphs has).append_left,
      glyphs_ofGlyphs_blank has, glyphs_ofGlyphs_blank hbs, ← eq_ofGlyphs_trim hgs]
  rw [hgs] at hglyphs
  exact (List.append_cancel_left (List.append_cancel_right hglyphs)).symm

theorem trim_inked (s : Bytes) : trim s = [] ∨ StartsInk (trim s) ∧ EndsInk (trim s) := by
  obtain ⟨-, bs, -, -, hdrop, -⟩ := exists_trimGlyphs (glyphs s)
  have hstop (gs : List Glyph) {g : Glyph} {rest : List Glyph}
      (h : gs.dropWhile Glyph.isBlank = g :: rest) : g.isBlank = false := by
    have hhead := List.head?_dropWhile_not Glyph.isBlank gs
    rwa [h] at hhead
  rw [StartsInk, EndsInk, glyphs_trim]
  cases htrim : ((glyphs s).dropWhile Glyph.isBlank).reverse.dropWhile Glyph.isBlank with
  | nil =>
    left
    rw [trim, trimGlyphs, htrim]
    rfl
  | cons last rest =>
    have hends : trimGlyphs Glyph.isBlank (glyphs s) = rest.reverse ++ [last] := by
      rw [trimGlyphs, htrim, List.reverse_cons]
    refine .inr ⟨?_, rest.reverse, last, hends, hstop _ htrim⟩
    cases hstarts : trimGlyphs Glyph.isBlank (glyphs s) with
    | nil =>
      rw [hstarts] at hends
      cases List.append_ne_nil_of_right_ne_nil _ (List.cons_ne_nil _ _) hends.symm
    | cons first middle =>
      rw [hstarts] at hdrop
      exact ⟨first, middle, rfl, hstop _ hdrop⟩

theorem trim_blank {s : Bytes} (h : Blank s) : trim s = [] := by
  have hdrop : (glyphs s).dropWhile Glyph.isBlank = [] := by
    rw [← List.append_nil (glyphs s), List.dropWhile_append_of_pos h, List.dropWhile_nil]
  rw [trim, trimGlyphs, hdrop]
  rfl

theorem Blank.append {s t : Bytes} (hs : Blank s) (ht : Blank t) : Blank (s ++ t) := by
  rw [Blank, hs.append_left, List.forall_mem_append]
  exact ⟨hs, ht⟩

theorem Padded.trim {ink s : Bytes} (h : Padded ink s) (hstarts : StartsInk ink)
    (hends : EndsInk ink) : trim s = ink := by
  obtain ⟨before, after, hbefore, hafter, rfl⟩ := h
  rw [Text.trim, hafter.append_right, hbefore.append_left,
    trimGlyphs_eq _ _ hbefore hafter hstarts hends, ofGlyphs_glyphs]

theorem Padded.trim_nil {s : Bytes} (h : Padded [] s) : Text.trim s = [] := by
  obtain ⟨before, after, hbefore, hafter, rfl⟩ := h
  rw [List.append_nil]
  exact trim_blank (hbefore.append hafter)

/-- White space around a text does not matter to trimming. -/
theorem Padded.trim_eq {ink s : Bytes} (h : Padded ink s) : Text.trim s = Text.trim ink := by
  obtain ⟨before, after, hbefore, hafter, rfl⟩ := h
  obtain ⟨left, right, hleft, hright, hink⟩ := padded_trim ink
  have hpadded : Padded (Text.trim ink) (before ++ ink ++ after) := by
    refine ⟨before ++ left, right ++ after, hbefore.append hleft, hright.append hafter, ?_⟩
    nth_rewrite 1 [hink]
    simp only [List.append_assoc]
  rcases trim_inked ink with hnil | ⟨hstarts, hends⟩
  · rw [hnil] at hpadded ⊢
    exact hpadded.trim_nil
  · exact hpadded.trim hstarts hends

theorem Blank.mark_notMem {s : Bytes} (h : Blank s) {c : UInt8}
    (hc : isMarkByte c = true) : c ∉ s := by
  intro hmem
  obtain ⟨hlow, -, hink⟩ := ofByte_mark hc
  have hblank := h _ ((ofByte_mem_glyphs hlow).mpr hmem)
  rw [hink] at hblank
  cases hblank

theorem Padded.mark_notMem {ink s : Bytes} (h : Padded ink s) {c : UInt8}
    (hc : isMarkByte c = true) (hink : c ∉ ink) : c ∉ s := by
  obtain ⟨before, after, hbefore, hafter, rfl⟩ := h
  rw [List.mem_append, List.mem_append]
  rintro ((hmem | hmem) | hmem)
  · exact hbefore.mark_notMem hc hmem
  · exact hink hmem
  · exact hafter.mark_notMem hc hmem

theorem intercalate_cut (depth : Int) (s : Bytes) :
    List.intercalate [0x2c] ((cut depth s).1 :: (cut depth s).2) = s := by
  induction s generalizing depth with
  | nil => rfl
  | cons c s ih =>
    by_cases hc : c = 0x2c ∧ depth = 0
    · obtain ⟨rfl, rfl⟩ := hc
      rw [cut_comma, List.intercalate_cons_cons, ih]
      rfl
    · have hrest := ih (depthAfter depth c)
      rw [cut_cons (not_and_or.mp hc)]
      cases hcut : (cut (depthAfter depth c) s).2 with
      | nil =>
        rw [hcut, List.intercalate_singleton] at hrest
        rw [List.intercalate_singleton, hrest]
      | cons p ps =>
        rw [hcut, List.intercalate_cons_cons] at hrest
        rw [List.intercalate_cons_cons, List.cons_append, List.cons_append, hrest]

theorem cut_intercalate (p : Bytes) (ps : List Bytes)
    (h : ∀ q ∈ p :: ps, ∀ c ∈ q, isMarkByte c = false) :
    cut 0 (List.intercalate [0x2c] (p :: ps)) = (p, ps) := by
  have hcut {q : Bytes} (hq : ∀ c ∈ q, isMarkByte c = false) (t : Bytes) :
      cut 0 (q ++ t) = (q ++ (cut 0 t).1, (cut 0 t).2) := by
    apply cut_append
    · intro c hc
      by_contra hflat
      have hmark := hq c hc
      rw [mark_of_not_flat (Bool.eq_false_iff.mpr hflat)] at hmark
      cases hmark
    · exact .inl fun hc => absurd (hq _ hc) (by decide)
  induction ps generalizing p with
  | nil =>
    have hp := hcut (h p List.mem_cons_self) []
    rw [List.append_nil] at hp
    rw [List.intercalate_singleton, hp]
    simp [cut]
  | cons q ps ih =>
    rw [List.forall_mem_cons] at h
    rw [List.intercalate_cons_cons, List.append_assoc, hcut h.1, List.singleton_append, cut_comma,
      ih q h.2, List.append_nil]

/-- The parts of a text are its pieces without the white space around them. -/
theorem exists_pieces {s t : Bytes} {ts : List Bytes} (h : parts s = t :: ts) :
    ∃ pieces, List.Forall₂ Padded (t :: ts) pieces ∧ s = List.intercalate [0x2c] pieces := by
  have hpieces := intercalate_cut 0 s
  have hpadded (qs : List Bytes) : List.Forall₂ Padded (qs.map trim) qs :=
    List.forall₂_map_left_iff.mpr (List.forall₂_same.mpr fun q _ => padded_trim q)
  refine ⟨_, ?_, hpieces.symm⟩
  rw [parts] at h
  split at h
  next only heq =>
    split at h
    · cases h
    · rw [heq, ← h]
      exact .cons (padded_trim only) .nil
  next first rest _ heq =>
    rw [heq, ← h]
    exact .cons (padded_trim first) (hpadded rest)

/-- Texts that are padded and joined by commas are the parts of what they are joined to. -/
theorem parts_padded {inks pieces : List Bytes} (h : List.Forall₂ Padded inks pieces)
    (hne : inks ≠ []) (hgap : inks ≠ [[]])
    (hinks : ∀ ink ∈ inks, ink = [] ∨ StartsInk ink ∧ EndsInk ink)
    (hmarks : ∀ ink ∈ inks, ∀ c ∈ ink, isMarkByte c = false) :
    parts (List.intercalate [0x2c] pieces) = inks := by
  have htrim : pieces.map trim = inks := by
    clear hne hgap hmarks
    induction h with
    | nil => rfl
    | cons hpadded _ ih =>
      rw [List.forall_mem_cons] at hinks
      rw [List.map_cons, ih hinks.2, List.cons.injEq]
      refine ⟨?_, rfl⟩
      rcases hinks.1 with rfl | ⟨hstarts, hends⟩
      · exact hpadded.trim_nil
      · exact hpadded.trim hstarts hends
  have hpieces : ∀ q ∈ pieces, ∀ c ∈ q, isMarkByte c = false := by
    clear hne hgap hinks htrim
    induction h with
    | nil => simp
    | cons hpadded _ ih =>
      rw [List.forall_mem_cons] at hmarks ⊢
      refine ⟨?_, ih hmarks.2⟩
      intro c hc
      by_contra hmark
      rw [Bool.not_eq_false] at hmark
      refine hpadded.mark_notMem hmark ?_ hc
      intro hmem
      rw [hmarks.1 c hmem] at hmark
      cases hmark
  cases h with
  | nil => exact absurd rfl hne
  | @cons ink p inks ps hpadded hrest =>
    rw [parts, cut_intercalate p ps hpieces]
    rw [List.map_cons, List.cons.injEq] at htrim
    cases hrest with
    | nil =>
      have hink : ink ≠ [] := fun heq => hgap (by rw [heq])
      simp [htrim.1, hink]
    | cons => simp [htrim.1, ← htrim.2]

end ScalableVector.Text
