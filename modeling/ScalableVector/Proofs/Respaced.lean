import ScalableVector.Proofs.Recased

/-!
# Lines in other layout

White space around a line, white space around the commas between its operands, and a comment at its
end have no meaning. Together with the freedom of letter case, a line that is accepted can be laid
out in many ways that all make the same call.
-/

namespace ScalableVector

namespace Text

section Ink

theorem StartsInk.of_append {s t : Bytes} {c : UInt8} (hc : c.toNat < 0x80)
    (h : StartsInk (s ++ c :: t)) (hne : s ≠ []) : StartsInk s := by
  obtain ⟨g, gs, hglyphs, hg⟩ := h
  rw [glyphs_append hc] at hglyphs
  cases hs : glyphs s with
  | nil => exact absurd hs (glyphs_ne_nil hne)
  | cons g' gs' =>
    rw [hs, List.cons_append, List.cons.injEq] at hglyphs
    exact ⟨g', gs', hs, hglyphs.1 ▸ hg⟩

theorem EndsInk.of_append {s t : Bytes} {c : UInt8} (hc : c.toNat < 0x80)
    (h : EndsInk (s ++ c :: t)) (hne : t ≠ []) : EndsInk t := by
  obtain ⟨gs, g, hglyphs, hg⟩ := h
  have hlast := congrArg List.getLast? hglyphs
  rw [glyphs_append hc, List.getLast?_append_of_ne_nil _ (List.cons_ne_nil _ _),
    List.getLast?_cons, List.getLast?_concat, Option.some.injEq] at hlast
  have ht := List.dropLast_concat_getLast (glyphs_ne_nil hne)
  refine ⟨_, _, ht.symm, ?_⟩
  rw [List.getLast?_eq_some_getLast (glyphs_ne_nil hne), Option.getD_some] at hlast
  rwa [hlast]

theorem StartsInk.append_blank {s w : Bytes} (h : StartsInk s) (hw : Blank w) :
    StartsInk (s ++ w) := by
  obtain ⟨g, gs, hs, hg⟩ := h
  exact ⟨g, gs ++ glyphs w, by rw [hw.append_right, hs, List.cons_append], hg⟩

theorem EndsInk.blank_append {s w : Bytes} (h : EndsInk s) (hw : Blank w) :
    EndsInk (w ++ s) := by
  obtain ⟨gs, g, hs, hg⟩ := h
  exact ⟨glyphs w ++ gs, g, by rw [hw.append_left, hs, List.append_assoc], hg⟩

theorem trim_append_of_blank {w : Bytes} (hw : Blank w) (s : Bytes) : trim (s ++ w) = trim s :=
  Padded.trim_eq ⟨[], w, blank_nil, hw, rfl⟩

def indentation (s : Bytes) : Bytes := ofGlyphs ((glyphs s).takeWhile Glyph.isBlank)

theorem Blank.indentation_append {before s : Bytes} (h : Blank before) (hs : StartsInk s) :
    indentation (before ++ s) = before := by
  obtain ⟨g, gs, hglyphs, hg⟩ := hs
  rw [indentation, h.append_left, List.takeWhile_append_of_pos h, hglyphs,
    List.takeWhile_cons_of_neg (by rw [hg]; decide), List.append_nil, ofGlyphs_glyphs]

theorem getLast?_trim {s : Bytes} {c : UInt8} (hc : isMarkByte c = true)
    (h : s.getLast? = some c) : (trim s).getLast? = some c := by
  obtain ⟨before, after, hbefore, hafter, hs⟩ := padded_trim s
  have hblank {w : Bytes} (hw : Blank w) : w.getLast? ≠ some c :=
    fun hlast => hw.mark_notMem hc (List.mem_of_getLast? hlast)
  rw [hs, List.getLast?_append, List.getLast?_append] at h
  cases hlast : after.getLast? with
  | some d =>
    rw [hlast, Option.some_or] at h
    exact absurd (hlast.trans h) (hblank hafter)
  | none =>
    rw [hlast, Option.none_or] at h
    cases htrim : (trim s).getLast? with
    | some d => rwa [htrim, Option.some_or] at h
    | none =>
      rw [htrim, Option.none_or] at h
      exact absurd h (hblank hbefore)

/-- Where white space is added around a comma, that behind the comma is trimmed if the text ends
there, and kept otherwise. -/
theorem exists_trim_spread {before after s t w₁ w₂ : Bytes} (hbefore : Blank before)
    (hafter : Blank after) (hne : s ≠ []) (hstarts : StartsInk (s ++ 0x2c :: t))
    (hends : EndsInk (s ++ 0x2c :: t)) (h₁ : Blank w₁) (h₂ : Blank w₂) :
    ∃ w, Blank w ∧ trim (before ++ (s ++ w₁ ++ 0x2c :: (w₂ ++ t)) ++ after) =
      s ++ w₁ ++ 0x2c :: (w ++ t) := by
  have hstarts' (u : Bytes) : StartsInk (s ++ w₁ ++ 0x2c :: u) :=
    ((hstarts.of_append (by decide) hne).append_blank h₁).append (by decide) u
  rw [Padded.trim_eq ⟨before, after, hbefore, hafter, rfl⟩]
  by_cases ht : t = []
  -- the text ends with the comma, and what is added behind it is white space around the text
  · subst ht
    refine ⟨[], blank_nil, ?_⟩
    have hends' : EndsInk (s ++ w₁ ++ [0x2c]) :=
      ⟨glyphs (s ++ w₁), .ofByte 0x2c, glyphs_append (by decide) _ [], by decide⟩
    have hcomma : s ++ w₁ ++ 0x2c :: (w₂ ++ []) = s ++ w₁ ++ [0x2c] ++ w₂ := by simp
    rw [hcomma, trim_append_of_blank h₂]
    exact trim_eq_self (hstarts' []) hends'
  · have hends' : EndsInk (w₂ ++ t) := (hends.of_append (by decide) ht).blank_append h₂
    exact ⟨w₂, h₂, trim_eq_self (hstarts' _) (hends'.append (by decide) _)⟩

end Ink

section Pieces

theorem cut_append_comma {depth : Int} {p : Bytes} (h : depthThrough depth p = 0) (q : Bytes) :
    cut depth (p ++ 0x2c :: q) =
      ((cut depth p).1, (cut depth p).2 ++ (cut 0 q).1 :: (cut 0 q).2) := by
  induction p generalizing depth with
  | nil =>
    have hdepth : depth = 0 := by simpa [depthThrough] using h
    rw [hdepth, List.nil_append, cut_comma]
    rfl
  | cons c p ih =>
    rw [depthThrough_cons] at h
    by_cases hc : c = 0x2c ∧ depth = 0
    · obtain ⟨rfl, rfl⟩ := hc
      rw [depthAfter_flat (by decide)] at h
      rw [List.cons_append, cut_comma, cut_comma, ih h]
      rfl
    · have hcut := not_and_or.mp hc
      rw [List.cons_append, cut_cons hcut, cut_cons hcut, ih h]

private theorem cut_append_blank {w : Bytes} (hw : Blank w) (depth : Int) (s : Bytes) :
    List.Forall₂ (fun piece piece' => ∃ pad, Blank pad ∧ piece' = piece ++ pad)
      ((cut depth s).1 :: (cut depth s).2)
      ((cut depth (s ++ w)).1 :: (cut depth (s ++ w)).2) := by
  induction s generalizing depth with
  | nil =>
    have hcut := hw.cut_append depth []
    rw [List.append_nil] at hcut
    rw [List.nil_append, hcut]
    exact .cons ⟨w, hw, by simp [cut]⟩ .nil
  | cons c s ih =>
    by_cases hc : c = 0x2c ∧ depth = 0
    · obtain ⟨rfl, rfl⟩ := hc
      rw [List.cons_append, cut_comma, cut_comma]
      exact .cons ⟨[], blank_nil, rfl⟩ (ih 0)
    · have hcut := not_and_or.mp hc
      rw [List.cons_append, cut_cons hcut, cut_cons hcut]
      obtain ⟨⟨pad, hpad, hfirst⟩, hrest⟩ := List.forall₂_cons.mp (ih (depthAfter depth c))
      exact .cons ⟨pad, hpad, by rw [hfirst]; rfl⟩ hrest

private theorem map_trim_cut_append {w : Bytes} (hw : Blank w) (depth : Int) (s : Bytes) :
    ((cut depth (s ++ w)).1 :: (cut depth (s ++ w)).2).map trim =
      ((cut depth s).1 :: (cut depth s).2).map trim := by
  have hpieces := cut_append_blank hw depth s
  generalize (cut depth s).1 :: (cut depth s).2 = pieces at hpieces ⊢
  generalize (cut depth (s ++ w)).1 :: (cut depth (s ++ w)).2 = pieces' at hpieces ⊢
  induction hpieces with
  | nil => rfl
  | cons head _ ih =>
    obtain ⟨pad, hpad, rfl⟩ := head
    rw [List.map_cons, List.map_cons, trim_append_of_blank hpad, ih]

theorem Balanced.append_blank {p w : Bytes} (hp : Balanced p) (hw : Blank w) :
    Balanced (p ++ w) := by
  have hopens : w.countP opens = 0 := by
    rw [List.countP_eq_zero]
    intro c hc hopen
    have hflat := hw.flat c hc
    rw [isFlat, hopen] at hflat
    cases hflat
  have hcloses : w.countP closes = 0 := by
    rw [List.countP_eq_zero]
    intro c hc hclose
    have hflat := hw.flat c hc
    rw [isFlat, hclose, Bool.not_true, Bool.and_false] at hflat
    cases hflat
  rw [Balanced, List.countP_append, List.countP_append, hopens, hcloses, hp]

theorem parts_spread {p w₁ w₂ : Bytes} (hp : Balanced p) (h₁ : Blank w₁) (h₂ : Blank w₂)
    (q : Bytes) : parts (p ++ w₁ ++ 0x2c :: (w₂ ++ q)) = parts (p ++ 0x2c :: q) := by
  have hcut (s t : Bytes) (hs : Balanced s) : parts (s ++ 0x2c :: t) =
      ((cut 0 s).1 :: (cut 0 s).2).map trim ++ ((cut 0 t).1 :: (cut 0 t).2).map trim := by
    have hcomma := cut_append_comma (balanced_iff.mp hs) t
    rw [parts_of_cut (by rw [hcomma]; simp), hcomma, ← List.map_append]
    rfl
  have hback : ((cut 0 (w₂ ++ q)).1 :: (cut 0 (w₂ ++ q)).2).map trim =
      ((cut 0 q).1 :: (cut 0 q).2).map trim := by
    rw [h₂.cut_append 0 q, List.map_cons, List.map_cons, h₂.trim_append]
  rw [hcut _ _ (hp.append_blank h₁), hcut _ _ hp, map_trim_cut_append h₁, hback]

private theorem exists_piece_getLast {c : UInt8} (hc : c ≠ 0x2c) (depth : Int) {s : Bytes}
    (h : s.getLast? = some c) :
    ∃ piece ∈ (cut depth s).1 :: (cut depth s).2, piece.getLast? = some c := by
  induction s generalizing depth with
  | nil => cases h
  | cons d s ih =>
    cases s with
    | nil =>
      obtain rfl : d = c := Option.some.inj h
      rw [cut_cons (.inl hc)]
      exact ⟨_, List.mem_cons_self, rfl⟩
    | cons b s =>
      rw [List.getLast?_cons_cons] at h
      by_cases hd : d = 0x2c ∧ depth = 0
      · obtain ⟨rfl, rfl⟩ := hd
        obtain ⟨piece, hpiece, hlast⟩ := ih 0 h
        rw [cut_comma]
        exact ⟨piece, List.mem_cons_of_mem _ hpiece, hlast⟩
      · obtain ⟨piece, hpiece, hlast⟩ := ih (depthAfter depth d) h
        rw [cut_cons (not_and_or.mp hd)]
        rcases List.mem_cons.mp hpiece with rfl | hpiece
        · refine ⟨_, List.mem_cons_self, ?_⟩
          rw [List.getLast?_cons, hlast, Option.getD_some]
        · exact ⟨piece, List.mem_cons_of_mem _ hpiece, hlast⟩

/-- A mark at the end of a text stands at the end of one of its parts. -/
theorem exists_part_getLast {c : UInt8} (hc : c ≠ 0x2c) (hmark : isMarkByte c = true) {s : Bytes}
    (h : s.getLast? = some c) : ∃ part ∈ parts s, part.getLast? = some c := by
  obtain ⟨piece, hpiece, hlast⟩ := exists_piece_getLast hc 0 h
  have htrim := getLast?_trim hmark hlast
  refine ⟨trim piece, ?_, htrim⟩
  rw [parts_of_cut]
  · exact List.mem_map_of_mem hpiece
  · rintro ⟨hrest, hnil⟩
    rw [hrest, List.mem_singleton] at hpiece
    rw [hpiece, hnil] at htrim
    cases htrim

theorem exists_of_mem_commas {s : Bytes} {i : Nat} (h : i ∈ commas s) :
    ∃ p q, Balanced p ∧ p.length = i ∧ s = p ++ 0x2c :: q := by
  rw [commas, List.mem_filter, List.mem_range, decide_eq_true_eq] at h
  obtain ⟨hi, hcomma, hbalanced⟩ := h
  refine ⟨s.take i, s.drop (i + 1), hbalanced, List.length_take_of_le (Nat.le_of_lt hi), ?_⟩
  rw [List.getElem?_eq_getElem hi, Option.some.injEq] at hcomma
  rw [← hcomma, List.getElem_cons_drop, List.take_append_drop]

end Pieces

end Text

namespace Line

open Text

section Comment

theorem exists_comment (line : Bytes) : ∃ comment, line = dropComment line ++ comment := by
  induction line with
  | nil => exact ⟨[], rfl⟩
  | cons c s ih =>
    cases s with
    | nil => exact ⟨[], rfl⟩
    | cons d s =>
      rw [dropComment]
      split
      · exact ⟨_, rfl⟩
      · obtain ⟨comment, hs⟩ := ih
        refine ⟨comment, ?_⟩
        rw [List.cons_append, ← hs]

theorem dropComment_split {s t kept : Bytes} {c : UInt8} (hc : c ≠ 0x2f)
    (h : dropComment (s ++ c :: t) = s ++ c :: kept) :
    dropComment s = s ∧ dropComment t = kept := by
  induction s with
  | nil =>
    rw [List.nil_append, dropComment_cons hc, List.nil_append, List.cons.injEq] at h
    exact ⟨rfl, h.2⟩
  | cons a s ih =>
    cases s with
    | nil =>
      rw [List.cons_append, List.nil_append, dropComment, if_neg fun hslash => hc hslash.2,
        dropComment_cons hc] at h
      simp only [List.cons_append, List.nil_append, List.cons.injEq, true_and] at h
      exact ⟨rfl, h⟩
    | cons b s =>
      rw [List.cons_append, List.cons_append, dropComment] at h
      split at h
      · cases h
      next hslash =>
        obtain ⟨hs, ht⟩ := ih (List.cons.inj h).2
        rw [dropComment, if_neg hslash, hs]
        exact ⟨rfl, ht⟩

theorem dropComment_append_of_comment {s : Bytes} (h : dropComment s ≠ s) (t : Bytes) :
    dropComment (s ++ t) = dropComment s := by
  induction s with
  | nil => exact absurd rfl h
  | cons c s ih =>
    cases s with
    | nil => exact absurd rfl h
    | cons d s =>
      rw [dropComment] at h ⊢
      rw [List.cons_append, List.cons_append, dropComment]
      split
      · rfl
      next hslash =>
        rw [if_neg hslash] at h
        rw [← List.cons_append, ih fun heq => h (by rw [heq])]

theorem dropComment_append_of_ne {s : Bytes} (h : dropComment s = s)
    (hlast : s.getLast? ≠ some 0x2f) (t : Bytes) : dropComment (s ++ t) = s ++ dropComment t := by
  rcases List.eq_nil_or_concat s with rfl | ⟨u, c, rfl⟩
  · rfl
  · have hc : c ≠ 0x2f := by
      rintro rfl
      exact hlast (by simp)
    rw [List.concat_eq_append] at h ⊢
    obtain ⟨hu, -⟩ := dropComment_split hc h
    rw [List.append_assoc, List.singleton_append, dropComment_append hu hc, List.append_assoc,
      List.singleton_append]

theorem dropComment_blank {w : Bytes} (hw : Blank w) : dropComment w = w :=
  dropComment_of_count (by rw [List.count_eq_zero.mpr (hw.mark_notMem rfl)]; exact Nat.zero_le 1)

theorem dropComment_blank_append {w : Bytes} (hw : Blank w) (s : Bytes) :
    dropComment (w ++ s) = w ++ dropComment s :=
  dropComment_append_of_ne (dropComment_blank hw)
    (fun hlast => hw.mark_notMem rfl (List.mem_of_getLast? hlast)) s

theorem dropComment_append_blank {s w : Bytes} (h : dropComment s = s) (hw : Blank w) :
    dropComment (s ++ w) = s ++ w := by
  cases w with
  | nil => rwa [List.append_nil]
  | cons c w =>
    have hw' := dropComment_blank hw
    have hc : c ≠ 0x2f := by
      rintro rfl
      exact hw.mark_notMem rfl List.mem_cons_self
    rw [dropComment_cons hc, List.cons.injEq] at hw'
    rw [dropComment_append h hc, hw'.2]

theorem dropComment_spread {s t kept w₁ w₂ : Bytes} {c : UInt8} (hc : c ≠ 0x2f)
    (h : dropComment (s ++ c :: t) = s ++ c :: kept) (h₁ : Blank w₁) (h₂ : Blank w₂) :
    dropComment (s ++ w₁ ++ c :: (w₂ ++ t)) = s ++ w₁ ++ c :: (w₂ ++ kept) := by
  obtain ⟨hs, ht⟩ := dropComment_split hc h
  rw [dropComment_append (dropComment_append_blank hs h₁) hc, dropComment_blank_append h₂, ht]

end Comment

theorem parse_congr {line line' : Bytes}
    (h : trim (dropComment line') = trim (dropComment line)) : parse line' = parse line := by
  rw [parse, parse, h]

theorem parse_blank_append {w : Bytes} (hw : Blank w) (line : Bytes) :
    parse (w ++ line) = parse line := by
  apply parse_congr
  rw [dropComment_blank_append hw, hw.trim_append]

theorem parse_append_blank {w : Bytes} (hw : Blank w) (line : Bytes) :
    parse (line ++ w) = parse line := by
  apply parse_congr
  by_cases h : dropComment line = line
  · rw [dropComment_append_blank h hw, trim_append_of_blank hw, h]
  · rw [dropComment_append_of_comment h]

theorem Reads.getLast?_ne_slash {kinds : List OperandKind} {texts : List Bytes}
    {ops : List Operand} (h : Reads kinds texts ops) : ∀ t ∈ texts, t.getLast? ≠ some 0x2f := by
  induction h with
  | nil => exact fun _ ht => by cases ht
  | cons head _ ih =>
    exact List.forall_mem_cons.mpr ⟨(Operand.text_of_read head).getLast?_ne_slash, ih⟩

def operandPart (s : Bytes) : Bytes := (s.dropWhile fun c => !endsName c).drop 1

theorem eq_name_or (s : Bytes) : s = name s ∧ operandPart s = [] ∨
    ∃ gap, endsName gap = true ∧ s = name s ++ gap :: operandPart s := by
  have hs := List.takeWhile_append_dropWhile (p := fun c => !endsName c) (l := s)
  rw [← name] at hs
  cases hrest : s.dropWhile fun c => !endsName c with
  | nil =>
    rw [hrest, List.append_nil] at hs
    exact .inl ⟨hs.symm, by rw [operandPart, hrest, List.drop_nil]⟩
  | cons gap rest =>
    have hgap := List.head?_dropWhile_not (fun c => !endsName c) s
    rw [hrest, List.head?_cons] at hgap
    rw [hrest] at hs
    refine .inr ⟨gap, by simpa using hgap, ?_⟩
    rw [operandPart, hrest, List.drop_succ_cons, List.drop_zero, hs]

/-- A call does not end with a slash, so that a comment can follow it. -/
private theorem getLast?_ne_slash_of_call {s : Bytes} {c : Call} (h : call s = .ok c) :
    s.getLast? ≠ some 0x2f := by
  obtain ⟨hname, hreads⟩ := call_eq_ok_iff.mp h
  intro hlast
  rcases eq_name_or s with ⟨hs, -⟩ | ⟨gap, hgap, hs⟩
  · rw [hs] at hlast
    exact (solid_name hname).not_mem rfl (List.mem_of_getLast? hlast)
  · rw [hs, List.getLast?_append_of_ne_nil _ (List.cons_ne_nil _ _), List.getLast?_cons] at hlast
    cases hpart : (operandPart s).getLast? with
    | none =>
      rw [hpart, Option.getD_none, Option.some.injEq] at hlast
      rw [hlast] at hgap
      cases hgap
    | some d =>
      rw [hpart, Option.getD_some] at hlast
      rw [← hpart] at hlast
      obtain ⟨part, hpart, hslash⟩ := exists_part_getLast (by decide) rfl hlast
      exact hreads.getLast?_ne_slash part hpart hslash

theorem parse_append_comment {line : Bytes} {result : Option Call} (h : parse line = .ok result)
    (t : Bytes) : parse (line ++ 0x2f :: 0x2f :: t) = parse line := by
  apply parse_congr
  by_cases hcomment : dropComment line = line
  -- a slash at the end would start the comment one byte too early
  · have hlast : line.getLast? ≠ some 0x2f := by
      rw [parse_eq_ok_iff, hcomment] at h
      rcases h with ⟨hnil, -⟩ | ⟨-, c, hc, -⟩
      · intro hlast
        exact (trim_eq_nil_iff.mp hnil).mark_notMem rfl (List.mem_of_getLast? hlast)
      · intro hlast
        exact getLast?_ne_slash_of_call hc (getLast?_trim rfl hlast)
    have hnone : dropComment (0x2f :: 0x2f :: t) = [] := if_pos ⟨rfl, rfl⟩
    rw [dropComment_append_of_ne hcomment hlast, hnone, List.append_nil, hcomment]
  · rw [dropComment_append_of_comment hcomment]

/-- The positions in a line of the commas between its operands. -/
def separators (line : Bytes) : List Nat :=
  let s := trim (dropComment line)
  (commas (operandPart s)).map
    ((indentation (dropComment line)).length + (name s).length + 1 + ·)

theorem length_operands {line : Bytes} (h : operands (trim (dropComment line)) ≠ []) :
    (operands (trim (dropComment line))).length = (separators line).length + 1 := by
  rw [operands, ← operandPart] at h ⊢
  by_cases hblank : commas (operandPart (trim (dropComment line))) = [] ∧
      Blank (operandPart (trim (dropComment line)))
  · exact absurd (parts_blank hblank.1 hblank.2) h
  · rw [parts_eq_between hblank, List.length_map, length_between, separators, List.length_map]

/-- A line that is divided at a comma between two operands. -/
structure Division where
  before : Bytes
  typed : Bytes
  gap : UInt8
  front : Bytes
  back : Bytes
  after : Bytes
  comment : Bytes
  blank_before : Blank before
  blank_after : Blank after
  typed_name : ∀ b ∈ typed, (!endsName b) = true
  gap_ends : endsName gap = true
  balanced : Balanced front
  starts : StartsInk (typed ++ gap :: front ++ 0x2c :: back)
  ends : EndsInk (typed ++ gap :: front ++ 0x2c :: back)
  kept : dropComment (before ++ (typed ++ gap :: front) ++ 0x2c :: (back ++ after ++ comment)) =
    before ++ (typed ++ gap :: front) ++ 0x2c :: (back ++ after)

namespace Division

variable (d : Division)

def head : Bytes := d.typed ++ d.gap :: d.front

def line : Bytes := d.before ++ d.head ++ 0x2c :: (d.back ++ d.after ++ d.comment)

def position : Nat := (d.before ++ d.head).length

theorem take_line : d.line.take d.position = d.before ++ d.head := List.take_left

theorem drop_line : d.line.drop d.position = 0x2c :: (d.back ++ d.after ++ d.comment) :=
  List.drop_left

theorem drop_succ_line : d.line.drop (d.position + 1) = d.back ++ d.after ++ d.comment := by
  rw [← List.drop_drop, d.drop_line]
  rfl

theorem head_ne_nil : d.head ≠ [] :=
  List.append_ne_nil_of_right_ne_nil _ (List.cons_ne_nil _ _)

theorem trim_line : trim (dropComment d.line) = d.head ++ 0x2c :: d.back := by
  have hkept : dropComment d.line = d.before ++ (d.head ++ 0x2c :: d.back) ++ d.after := by
    refine d.kept.trans ?_
    simp only [head, List.append_assoc, List.cons_append]
  rw [hkept, Padded.trim_eq ⟨_, _, d.blank_before, d.blank_after, rfl⟩]
  exact trim_eq_self d.starts d.ends

theorem call_spread {w₁ w₂ : Bytes} (h₁ : Blank w₁) (h₂ : Blank w₂) :
    call (d.head ++ w₁ ++ 0x2c :: (w₂ ++ d.back)) = call (d.head ++ 0x2c :: d.back) := by
  have hsplit (t : Bytes) : name (d.head ++ t) = d.typed ∧
      operands (d.head ++ t) = parts (d.front ++ t) := by
    rw [head, List.append_assoc, List.cons_append]
    exact ⟨name_append d.typed_name d.gap_ends _, operands_append d.typed_name d.gap_ends _⟩
  have hparts : parts (d.front ++ (w₁ ++ 0x2c :: (w₂ ++ d.back))) =
      parts (d.front ++ 0x2c :: d.back) := by
    rw [← List.append_assoc]
    exact parts_spread d.balanced h₁ h₂ d.back
  rw [List.append_assoc, call, call, (hsplit _).1, (hsplit _).2, (hsplit _).1, (hsplit _).2, hparts]

theorem parse_spread {w₁ w₂ : Bytes} (h₁ : Blank w₁) (h₂ : Blank w₂) :
    parse (d.line.take d.position ++ w₁ ++ 0x2c :: (w₂ ++ d.line.drop (d.position + 1))) =
      parse d.line := by
  obtain ⟨w, hw, htrim⟩ := exists_trim_spread d.blank_before d.blank_after d.head_ne_nil d.starts
    d.ends h₁ h₂
  have hkept := dropComment_spread (by decide) d.kept h₁ h₂
  have htrim' : trim (dropComment
      (d.before ++ d.head ++ w₁ ++ 0x2c :: (w₂ ++ (d.back ++ d.after ++ d.comment)))) =
        d.head ++ w₁ ++ 0x2c :: (w ++ d.back) := by
    rw [← htrim]
    refine congrArg trim (hkept.trans ?_)
    simp only [head, List.append_assoc, List.cons_append]
  rw [d.take_line, d.drop_succ_line, parse_of_ne_nil d.trim_line (by simp),
    parse_of_ne_nil htrim' (by simp), d.call_spread h₁ hw]

end Division

theorem exists_division {line : Bytes} {i : Nat} (h : i ∈ separators line) :
    ∃ d : Division, d.line = line ∧ d.position = i := by
  obtain ⟨j, hj, rfl⟩ := List.mem_map.mp h
  obtain ⟨front, back, hfront, rfl, hpart⟩ := exists_of_mem_commas hj
  obtain ⟨comment, hline⟩ := exists_comment line
  obtain ⟨before, after, hbefore, hafter, hkept⟩ := padded_trim (dropComment line)
  rcases eq_name_or (trim (dropComment line)) with ⟨-, hnil⟩ | ⟨gap, hgap, hs⟩
  · rw [hnil] at hpart
    cases List.append_ne_nil_of_right_ne_nil _ (List.cons_ne_nil _ _) hpart.symm
  · rw [hpart, ← List.cons_append, ← List.append_assoc] at hs
    rcases trim_inked (dropComment line) with hnil | ⟨hstarts, hends⟩
    · rw [hnil] at hs
      cases List.append_ne_nil_of_right_ne_nil _ (List.cons_ne_nil _ _) hs.symm
    have hindent : indentation (dropComment line) = before := by
      rw [hkept, List.append_assoc]
      exact hbefore.indentation_append (hstarts.append_blank hafter)
    have htyped : ∀ b ∈ name (trim (dropComment line)), (!endsName b) = true :=
      List.all_eq_true.mp List.all_takeWhile
    generalize name (trim (dropComment line)) = typed at hs htyped ⊢
    rw [hs] at hkept hstarts hends
    rw [hkept] at hline
    have hwhole : line =
        before ++ (typed ++ gap :: front) ++ 0x2c :: (back ++ after ++ comment) := by
      rw [hline]
      simp only [List.append_assoc, List.cons_append]
    have hcomment : dropComment line =
        before ++ (typed ++ gap :: front) ++ 0x2c :: (back ++ after) := by
      rw [hkept]
      simp only [List.append_assoc, List.cons_append]
    refine ⟨⟨before, typed, gap, front, back, after, comment, hbefore, hafter, htyped, hgap, hfront,
      hstarts, hends, hwhole ▸ hcomment⟩, hwhole.symm, ?_⟩
    -- white space, name, gap and the operands in front of the comma add up to its position
    rw [hindent]
    simp only [Division.position, Division.head, List.length_append, List.length_cons]
    omega

end Line

namespace Listing

open Text

variable {σ : Type} [Sink σ]

private theorem step_congr (e : Emitter σ) {line line' : Bytes}
    (h : Line.parse line' = Line.parse line) : step e line' = step e line := by
  rw [step, step, h]

private theorem parse_of_accepted {e : Emitter σ} {line : Bytes} (h : (step e line).2 = none) :
    ∃ result, Line.parse line = .ok result := by
  cases hparse : Line.parse line with
  | ok result => exact ⟨result, rfl⟩
  | error error =>
    rw [step, hparse] at h
    cases h

/-- A line that is accepted makes the same call, and leaves the same emitter, with white space
around it, with a comment at its end, with white space around the commas between its operands, with
all ASCII letters in lower case, and with all of them as capitals. -/
theorem layout_and_case_free (e : Emitter σ) {line : Bytes} (h : (step e line).2 = none) :
    (∀ w, Blank w → step e (w ++ line) = step e line ∧ step e (line ++ w) = step e line) ∧
    (∀ t, step e (line ++ Bytes.ofString "//" ++ t) = step e line) ∧
    (Line.operands (trim (Line.dropComment line)) ≠ [] →
      (Line.operands (trim (Line.dropComment line))).length = (Line.separators line).length + 1) ∧
    (∀ i ∈ Line.separators line, line.drop i = 0x2c :: line.drop (i + 1) ∧
      ∀ w₁ w₂, Blank w₁ → Blank w₂ →
        step e (line.take i ++ w₁ ++ 0x2c :: (w₂ ++ line.drop (i + 1))) = step e line) ∧
    step e (line.map lowerByte) = step e line ∧ step e (line.map upperByte) = step e line := by
  obtain ⟨result, hresult⟩ := parse_of_accepted h
  refine ⟨fun w hw => ⟨step_congr e (Line.parse_blank_append hw line),
      step_congr e (Line.parse_append_blank hw line)⟩, fun t => step_congr e ?_,
    Line.length_operands, fun i hi => ?_, step_congr e ?_, step_congr e ?_⟩
  · rw [List.append_assoc]
    exact Line.parse_append_comment hresult t
  · obtain ⟨d, rfl, rfl⟩ := Line.exists_division hi
    refine ⟨?_, fun w₁ w₂ h₁ h₂ => step_congr e (d.parse_spread h₁ h₂)⟩
    rw [d.drop_line, d.drop_succ_line]
  · rw [hresult, Line.parse_map recases_lowerByte keepsTruth_lowerByte hresult]
  · rw [hresult, Line.parse_map recases_upperByte keepsTruth_upperByte hresult]

private def unused : Emitter WordLog := .new .standard .empty

private def loadLine : Bytes :=
  Bytes.ofString "\u2003ld1w\tS, z3.S,P2/z, [x1, #-2, mul vl]\u00a0// two, below"

/-- The commas of the address and of the comment separate no operands. -/
theorem layout_and_case_free_load :
    ((step unused loadLine).2 = none ∧
      (step unused loadLine).1.sink.words = #[0xa54ea823] ∧
      Line.separators loadLine = [9, 15, 20]) ∧
    step unused (Bytes.ofString
        "\u2003ld1w\tS, z3.S\u3000,\t P2/z, [x1, #-2, mul vl]\u00a0// two, below") =
      step unused loadLine ∧
    step unused (Bytes.ofString
        "\u2003LD1W\tS, Z3.S,P2/Z, [X1, #-2, MUL VL]\u00a0// TWO, BELOW") =
      step unused loadLine := by
  have hnone : (step unused loadLine).2 = none := by decide +kernel
  have hseparators : Line.separators loadLine = [9, 15, 20] := by decide +kernel
  obtain ⟨-, -, -, hspread, -, hupper⟩ := layout_and_case_free unused hnone
  refine ⟨⟨hnone, by decide +kernel, hseparators⟩, ?_, ?_⟩
  · have hcomma := (hspread 15 (by simp [hseparators])).2 (Bytes.ofString "\u3000")
      (Bytes.ofString "\t ") (by unfold Blank; decide +kernel) (by unfold Blank; decide +kernel)
    rw [← hcomma]
    exact congrArg (step unused) (by decide +kernel)
  · rw [← hupper]
    exact congrArg (step unused) (by decide +kernel)

end Listing

end ScalableVector
