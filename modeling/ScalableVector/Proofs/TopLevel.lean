import ScalableVector.Proofs.Pieces

/-!
# Commas outside of brackets

A comma separates parts if as many brackets are opened as are closed before it. The parts of a text
are what stands between these commas, and texts that keep their own commas inside brackets are found
again after they are joined.
-/

namespace ScalableVector.Text

def Balanced (s : Bytes) : Prop := s.countP opens = s.countP closes

instance : DecidablePred Balanced := fun s => inferInstanceAs (Decidable (s.countP opens = _))

/-- The positions of the commas with balanced brackets before them. -/
def commas (s : Bytes) : List Nat :=
  (List.range s.length).filter fun i => s[i]? = some 0x2c ∧ Balanced (s.take i)

/-- What stands between the given positions of the text and at its ends, the text before `start` and
the bytes at these positions being left out. -/
def between (s : Bytes) (start : Nat) : List Nat → List Bytes
  | [] => [s.drop start]
  | i :: is => (s.take i).drop start :: between s (i + 1) is

theorem length_between (s : Bytes) (start : Nat) (is : List Nat) :
    (between s start is).length = is.length + 1 := by
  induction is generalizing start with
  | nil => rfl
  | cons i is ih => rw [between, List.length_cons, ih, List.length_cons]

private theorem between_cons (c : UInt8) (s : Bytes) (start : Nat) (is : List Nat) :
    between (c :: s) (start + 1) (is.map (· + 1)) = between s start is := by
  induction is generalizing start with
  | nil => rfl
  | cons i is ih =>
    rw [List.map_cons, between, between, ih, List.take_succ_cons, List.drop_succ_cons]

def depthThrough (depth : Int) (s : Bytes) : Int :=
  depth + s.countP opens - s.countP closes

theorem depthThrough_cons (depth : Int) (c : UInt8) (s : Bytes) :
    depthThrough depth (c :: s) = depthThrough (depthAfter depth c) s := by
  have hboth : ¬(opens c = true ∧ closes c = true) := by
    simp only [opens, closes, Bool.or_eq_true, beq_iff_eq]
    rintro ⟨rfl | rfl, h | h⟩ <;> cases h
  rw [depthThrough, depthThrough, depthAfter, List.countP_cons, List.countP_cons]
  split <;> split <;> grind

theorem balanced_iff {s : Bytes} : Balanced s ↔ depthThrough 0 s = 0 := by
  rw [Balanced, depthThrough]
  omega

/-- The commas of depth zero, the text before them starting at the given depth. -/
def commasFrom (depth : Int) (s : Bytes) : List Nat :=
  (List.range s.length).filter fun i => s[i]? = some 0x2c ∧ depthThrough depth (s.take i) = 0

theorem commas_eq (s : Bytes) : commas s = commasFrom 0 s := by
  simp only [commas, commasFrom, balanced_iff]

theorem commasFrom_cons (depth : Int) (c : UInt8) (s : Bytes) :
    commasFrom depth (c :: s) =
      (if c = 0x2c ∧ depth = 0 then [0] else []) ++
        (commasFrom (depthAfter depth c) s).map (· + 1) := by
  have hnil : depthThrough depth [] = depth := by simp [depthThrough]
  have hrest : (List.map Nat.succ (List.range s.length)).filter
      (fun i => (c :: s)[i]? = some 0x2c ∧ depthThrough depth ((c :: s).take i) = 0) =
        (commasFrom (depthAfter depth c) s).map (· + 1) := by
    rw [List.filter_map, commasFrom]
    simp only [Function.comp_def, List.getElem?_cons_succ, List.take_succ_cons, depthThrough_cons]
  rw [commasFrom, List.length_cons, List.range_succ_eq_map, List.filter_cons, hrest]
  simp only [List.getElem?_cons_zero, List.take_zero, hnil, Option.some.injEq, decide_eq_true_eq]
  split <;> rfl

theorem cut_eq_between (depth : Int) (s : Bytes) :
    (cut depth s).1 :: (cut depth s).2 = between s 0 (commasFrom depth s) := by
  induction s generalizing depth with
  | nil => rfl
  | cons c s ih =>
    by_cases hc : c = 0x2c ∧ depth = 0
    · rw [commasFrom_cons, if_pos hc]
      obtain ⟨rfl, rfl⟩ := hc
      rw [cut_comma, ih, List.singleton_append, between, between_cons, depthAfter_flat (by decide)]
      rfl
    · have hrest := ih (depthAfter depth c)
      rw [commasFrom_cons, if_neg hc, List.nil_append,
        cut_cons (not_and_or.mp hc)]
      -- the byte goes to the piece that the rest of the text starts with
      cases his : commasFrom (depthAfter depth c) s with
      | nil =>
        rw [his, between, List.cons.injEq] at hrest
        rw [hrest.1, hrest.2]
        rfl
      | cons i is =>
        rw [his, between, List.cons.injEq] at hrest
        rw [hrest.1, hrest.2, List.map_cons, between, between_cons]
        rfl

theorem cut_append_of_commas {depth : Int} {s : Bytes} (h : commasFrom depth s = []) (t : Bytes) :
    cut depth (s ++ t) =
      (s ++ (cut (depthThrough depth s) t).1, (cut (depthThrough depth s) t).2) := by
  induction s generalizing depth with
  | nil => simp [depthThrough]
  | cons c s ih =>
    rw [commasFrom_cons, List.append_eq_nil_iff, List.map_eq_nil_iff] at h
    have hc : ¬(c = 0x2c ∧ depth = 0) := fun hc => by
      rw [if_pos hc] at h
      cases h.1
    rw [List.cons_append, cut_cons (not_and_or.mp hc), ih h.2,
      depthThrough_cons]
    rfl

theorem trim_eq_nil_iff {s : Bytes} : trim s = [] ↔ Blank s := by
  refine ⟨fun h => ?_, trim_blank⟩
  obtain ⟨before, after, hbefore, hafter, hs⟩ := padded_trim s
  rw [h, List.append_nil] at hs
  rw [hs]
  exact hbefore.append hafter

theorem Blank.trim_append {s : Bytes} (h : Blank s) (t : Bytes) : trim (s ++ t) = trim t := by
  rw [Text.trim, h.append_left, trimGlyphs, List.dropWhile_append_of_pos h, ← trimGlyphs,
    ← Text.trim]

theorem parts_of_cut {s : Bytes} (h : ¬((cut 0 s).2 = [] ∧ trim (cut 0 s).1 = [])) :
    parts s = ((cut 0 s).1 :: (cut 0 s).2).map trim := by
  rw [parts]
  split
  next only heq =>
    rw [heq] at h ⊢
    rw [if_neg fun hnil => h ⟨rfl, List.isEmpty_iff.mp hnil⟩]
    rfl
  next first rest _ heq => rw [heq, List.map_cons]

theorem parts_blank {s : Bytes} (h : commas s = []) (hblank : Blank s) : parts s = [] := by
  have hcut := cut_eq_between 0 s
  rw [← commas_eq, h, between, List.drop_zero, List.cons.injEq] at hcut
  have hpair : cut 0 s = (s, []) := Prod.ext hcut.1 hcut.2
  rw [parts, hpair]
  simp only [trim_blank hblank, List.isEmpty_nil, if_true]

theorem parts_eq_between {s : Bytes} (h : ¬(commas s = [] ∧ Blank s)) :
    parts s = (between s 0 (commas s)).map trim := by
  have hcut := cut_eq_between 0 s
  rw [← commas_eq] at hcut
  rw [← hcut, parts_of_cut]
  rintro ⟨hrest, hfirst⟩
  -- one piece that is white space would be the whole text
  have hlength := congrArg List.length hcut
  rw [length_between, hrest, List.length_singleton, Nat.right_eq_add, List.length_eq_zero_iff]
    at hlength
  rw [hlength, between, List.drop_zero, List.cons.injEq] at hcut
  rw [hcut.1, trim_eq_nil_iff] at hfirst
  exact h ⟨hlength, hfirst⟩

/-- Texts that can be told apart after they are joined. -/
structure Separable (t : Bytes) : Prop where
  trimmed : trim t = t
  balanced : Balanced t
  whole : commas t = []

theorem Separable.cut_append {t : Bytes} (h : Separable t) (u : Bytes) :
    cut 0 (t ++ u) = (t ++ (cut 0 u).1, (cut 0 u).2) := by
  have hcut := cut_append_of_commas (commas_eq t ▸ h.whole) u
  rwa [balanced_iff.mp h.balanced] at hcut

theorem Blank.flat {s : Bytes} (h : Blank s) : ∀ c ∈ s, isFlat c = true := by
  intro c hc
  by_contra hflat
  exact h.mark_notMem (mark_of_not_flat (Bool.eq_false_iff.mpr hflat)) hc

theorem Blank.cut_append {s : Bytes} (h : Blank s) (depth : Int) (t : Bytes) :
    cut depth (s ++ t) = (s ++ (cut depth t).1, (cut depth t).2) :=
  Text.cut_append h.flat (.inl fun hc => h.mark_notMem rfl hc) t

private theorem cut_separated {pad : Bytes} (hpad : Blank pad) (t : Bytes) (ts : List Bytes)
    (h : ∀ u ∈ t :: ts, Separable u) :
    cut 0 (List.intercalate (0x2c :: pad) (t :: ts)) = (t, ts.map (pad ++ ·)) := by
  induction ts generalizing t with
  | nil =>
    have hcut := (h t List.mem_cons_self).cut_append []
    rw [List.append_nil, show cut 0 [] = ([], []) from rfl, List.append_nil] at hcut
    rw [List.intercalate_singleton, hcut, List.map_nil]
  | cons u us ih =>
    rw [List.forall_mem_cons] at h
    rw [List.intercalate_cons_cons, List.append_assoc, h.1.cut_append, List.cons_append, cut_comma,
      hpad.cut_append 0, ih u h.2, List.append_nil, List.map_cons]

theorem parts_separated {pad : Bytes} (hpad : Blank pad) {texts : List Bytes}
    (h : ∀ t ∈ texts, Separable t) (hgap : texts ≠ [[]]) :
    parts (List.intercalate (0x2c :: pad) texts) = texts := by
  cases texts with
  | nil => exact parts_blank (s := []) rfl blank_nil
  | cons t ts =>
    have hcut := cut_separated hpad t ts h
    rw [List.forall_mem_cons] at h
    rw [parts_of_cut, hcut, List.map_cons, h.1.trimmed, List.map_map, List.cons.injEq]
    · refine ⟨rfl, Eq.trans (List.map_congr_left fun u hu => ?_) (List.map_id ts)⟩
      exact (hpad.trim_append u).trans (h.2 u hu).trimmed
    · rw [hcut, List.map_eq_nil_iff, h.1.trimmed]
      rintro ⟨rfl, rfl⟩
      exact hgap rfl

/-- The parts of a text are what stands between its commas outside of brackets, trimmed, and joining
texts with such commas is undone by taking the parts. -/
theorem parts_split_at_commas :
    (∀ s, commas s = [] → Blank s → parts s = []) ∧
    (∀ s, ¬(commas s = [] ∧ Blank s) →
      parts s = (between s 0 (commas s)).map trim ∧ (parts s).length = (commas s).length + 1) ∧
    ∀ separator ∈ [Bytes.ofString ", ", Bytes.ofString ","], ∀ texts : List Bytes,
      (∀ t ∈ texts, trim t = t ∧ Balanced t ∧ commas t = []) → texts ≠ [[]] →
        parts (List.intercalate separator texts) = texts := by
  refine ⟨fun s => parts_blank, fun s h => ?_, ?_⟩
  · have hparts := parts_eq_between h
    refine ⟨hparts, ?_⟩
    rw [hparts, List.length_map, length_between]
  · intro separator hseparator texts htexts hgap
    have hseparable : ∀ t ∈ texts, Separable t := fun t ht =>
      ⟨(htexts t ht).1, (htexts t ht).2.1, (htexts t ht).2.2⟩
    simp only [List.mem_cons, List.not_mem_nil, or_false] at hseparator
    rcases hseparator with rfl | rfl
    · have hblank : Blank [0x20] := by unfold Blank; decide
      exact parts_separated hblank hseparable hgap
    · exact parts_separated blank_nil hseparable hgap

/-- A comma behind an unmatched closing bracket separates nothing until the bracket is opened, and
an empty text keeps its place. -/
theorem parts_split_at_commas_nested :
    (commas (Bytes.ofString " a],b[ ,\u00a0é ") = [7] ∧
      parts (Bytes.ofString " a],b[ ,\u00a0é ") = [Bytes.ofString "a],b[", Bytes.ofString "é"]) ∧
    parts (List.intercalate (Bytes.ofString ", ")
        [Bytes.ofString "{z0.s, z1.s}", [], Bytes.ofString "é[1,2]"]) =
      [Bytes.ofString "{z0.s, z1.s}", [], Bytes.ofString "é[1,2]"] := by
  obtain ⟨-, hsplit, hjoin⟩ := parts_split_at_commas
  have hcommas : commas (Bytes.ofString " a],b[ ,\u00a0é ") = [7] := by decide +kernel
  refine ⟨⟨hcommas, ?_⟩, hjoin _ (by decide) _ (by decide +kernel) (by decide)⟩
  rw [(hsplit _ (by rw [hcommas]; simp)).1, hcommas]
  decide +kernel

end ScalableVector.Text
