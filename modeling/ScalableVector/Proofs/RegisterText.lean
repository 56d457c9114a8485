import ScalableVector.Operand.Reader
import ScalableVector.Proofs.Numeral

/-!
# Texts of registers

The grammar of register operands, over texts in lower case: a letter and a decimal number, for
vectors and predicates perhaps an element size behind a dot, and the names of the zero registers and
stack pointers. The readers accept these texts in any letter case, and nothing else.
-/

namespace ScalableVector

open Number (Numeral digitByte)
open Text (AnyCase Clear isClear)

/-- A letter and the decimal digits of a number below the limit. Zeros may stand in front. -/
def Numbered (letter : UInt8) (limit : Nat) (t : Bytes) (n : UInt8) : Prop :=
  ∃ digits, Numeral digits n.toNat ∧ n.toNat < limit ∧ t = letter :: digits

/-- Nothing, or a dot and the letter of an element size. -/
def Arrangement (t : Bytes) : Prop := t = [] ∨ ∃ c ∈ Bytes.ofString "bhsdq", t = [0x2e, c]

def Arranged (letter : UInt8) (limit : Nat) (t : Bytes) (n : UInt8) : Prop :=
  ∃ u suffix, Numbered letter limit u n ∧ Arrangement suffix ∧ t = u ++ suffix

def VectorText (t : Bytes) (z : VectorRegister) : Prop := Arranged 0x7a 32 t z.number

def PredicateText (view : Predication) (t : Bytes) (p : PredicateRegister) : Prop :=
  ∃ u, Arranged 0x70 16 u p.number ∧ t = u ++ Bytes.ofString view.qualifier

def ScalarText (t : Bytes) (v : ScalarRegister) : Prop :=
  ∃ letter ∈ Bytes.ofString "vbhsdq", Numbered letter 32 t v.number

inductive GeneralText : Bytes → GeneralRegister → Prop
  | sp : GeneralText (Bytes.ofString "sp") ⟨31⟩
  | xzr : GeneralText (Bytes.ofString "xzr") ⟨31⟩
  | wsp : GeneralText (Bytes.ofString "wsp") ⟨63⟩
  | wzr : GeneralText (Bytes.ofString "wzr") ⟨63⟩
  | x {t : Bytes} {n : UInt8} (h : Numbered 0x78 31 t n) : GeneralText t ⟨n⟩
  | w {t : Bytes} {n : UInt8} (h : Numbered 0x77 31 t n) : GeneralText t ⟨32 + n⟩

theorem ok_bind_iff {ε α β : Type} {x : Except ε α} {f : α → Except ε β} {b : β} :
    x >>= f = .ok b ↔ ∃ a, x = .ok a ∧ f a = .ok b := by
  cases x with
  | error e => simp [bind, Except.bind]
  | ok a => simp [bind, Except.bind]

theorem ok_map_iff {ε α β : Type} {x : Except ε α} {f : α → β} {b : β} :
    x.map f = .ok b ↔ ∃ a, x = .ok a ∧ f a = b := by
  cases x with
  | error e => simp [Except.map]
  | ok a => simp [Except.map]

private theorem isClear_digitByte :
    ((List.range 10).all fun d => isClear (digitByte d) && digitByte d != 0x2e) = true := by
  decide

private theorem digit_of_numeral {t : Bytes} {n : Nat} (h : Numeral t n) :
    ∀ c ∈ t, isClear c = true ∧ c ≠ 0x2e := by
  obtain ⟨ds, -, hds, rfl, -⟩ := h
  intro c hc
  obtain ⟨d, hd, rfl⟩ := List.mem_map.mp hc
  have hdigit := List.all_eq_true.mp isClear_digitByte d (List.mem_range.mpr (hds d hd))
  rwa [Bool.and_eq_true, bne_iff_ne] at hdigit

theorem Numbered.clear {letter : UInt8} {limit : Nat} {t : Bytes} {n : UInt8}
    (h : Numbered letter limit t n) (hletter : isClear letter = true) : Clear t := by
  obtain ⟨digits, hdigits, -, rfl⟩ := h
  exact Text.clear_cons.mpr ⟨hletter, fun c hc => (digit_of_numeral hdigits c hc).1⟩

private theorem Numbered.dot_notMem {letter : UInt8} {limit : Nat} {t : Bytes} {n : UInt8}
    (h : Numbered letter limit t n) (hletter : letter ≠ 0x2e) : 0x2e ∉ t := by
  obtain ⟨digits, hdigits, -, rfl⟩ := h
  intro hmem
  rcases List.mem_cons.mp hmem with heq | hmem
  · exact hletter heq.symm
  · exact (digit_of_numeral hdigits _ hmem).2 rfl

theorem Arrangement.clear {t : Bytes} (h : Arrangement t) : Clear t := by
  rcases h with rfl | ⟨c, hc, rfl⟩
  · exact fun c hc => by cases hc
  · revert c
    decide +kernel

theorem Arranged.clear {letter : UInt8} {limit : Nat} {t : Bytes} {n : UInt8}
    (h : Arranged letter limit t n) (hletter : isClear letter = true) : Clear t := by
  obtain ⟨u, suffix, hu, hsuffix, rfl⟩ := h
  exact Text.clear_append.mpr ⟨hu.clear hletter, hsuffix.clear⟩

theorem GeneralText.clear {t : Bytes} {r : GeneralRegister} (h : GeneralText t r) : Clear t := by
  cases h with
  | sp | xzr | wsp | wzr => decide +kernel
  | x h | w h => exact h.clear rfl

namespace Reader

theorem numberBelow_eq_ok_iff {letter : UInt8} {limit : Nat} (hlimit : limit ≤ 256) {s : Bytes}
    {n : UInt8} : numberBelow letter limit s = .ok n ↔ Numbered letter limit s n := by
  constructor
  · intro h
    cases s with
    | nil => cases h
    | cons c digits =>
      rw [numberBelow] at h
      split at h
      next m hm =>
        rw [Option.filter_eq_some_iff, decide_eq_true_eq] at hm
        obtain ⟨hm, hlt⟩ := hm
        rw [Option.ite_none_right_eq_some, Number.digitsValue_eq_some_iff] at hm
        obtain ⟨rfl, hm⟩ := hm
        obtain rfl := Except.ok.inj h
        have hval : (UInt8.ofNat m).toNat = m :=
          UInt8.toNat_ofNat_of_lt' (Nat.lt_of_lt_of_le hlt hlimit)
        exact ⟨digits, by rwa [hval], by rwa [hval], rfl⟩
      next => cases h
  · rintro ⟨digits, hdigits, hlt, rfl⟩
    rw [numberBelow, if_pos rfl, Number.digitsValue_eq_some_iff.mpr hdigits]
    simp [Option.filter, hlt]

private theorem isSome_ofSuffix_iff {s : Bytes} :
    (ElementSize.ofSuffix? s).isSome = true ↔ ∃ c ∈ Bytes.ofString "bhsdq", s = [c] := by
  have htable : ElementSize.suffixes.map (fun entry => Bytes.ofString entry.2) =
      (Bytes.ofString "bhsdq").map ([·]) := by decide +kernel
  rw [ElementSize.ofSuffix?, Option.isSome_map, List.find?_isSome]
  constructor
  · rintro ⟨entry, hentry, heq⟩
    have hmem := List.mem_map_of_mem (f := fun entry => Bytes.ofString entry.2) hentry
    rw [htable, List.mem_map] at hmem
    obtain ⟨c, hc, hsuffix⟩ := hmem
    exact ⟨c, hc, by rw [← of_decide_eq_true heq, hsuffix]⟩
  · rintro ⟨c, hc, rfl⟩
    have hmem := List.mem_map_of_mem (f := ([·])) hc
    rw [← htable, List.mem_map] at hmem
    obtain ⟨entry, hentry, heq⟩ := hmem
    exact ⟨entry, hentry, decide_eq_true heq⟩

private theorem dropArrangement_eq_ok_iff {s t : Bytes} :
    dropArrangement s = .ok t ↔ 0x2e ∉ t ∧ ∃ suffix, Arrangement suffix ∧ s = t ++ suffix := by
  rw [dropArrangement]
  constructor
  · intro h
    have hjoin := List.takeWhile_append_dropWhile (p := (· ≠ 0x2e)) (l := s)
    have hbefore : 0x2e ∉ s.takeWhile (· ≠ 0x2e) := by
      intro hmem
      have hdot := List.all_eq_true.mp List.all_takeWhile _ hmem
      simp at hdot
    -- what is left starts at the first dot, if there is one
    cases hrest : s.dropWhile (· ≠ 0x2e) with
    | nil =>
      rw [hrest] at h hjoin
      obtain rfl := Except.ok.inj h
      rw [List.append_nil] at hjoin
      rw [hjoin] at hbefore
      exact ⟨hbefore, [], .inl rfl, (List.append_nil s).symm⟩
    | cons c suffix =>
      have hc : c = 0x2e := by
        have hhead := List.head?_dropWhile_not (· ≠ 0x2e) s
        rw [hrest] at hhead
        simpa using hhead
      rw [hrest] at h hjoin
      dsimp only at h
      split at h
      next size hsize =>
        obtain rfl := Except.ok.inj h
        obtain ⟨b, hb, rfl⟩ := isSome_ofSuffix_iff.mp (Option.isSome_of_eq_some hsize)
        rw [hc] at hjoin
        exact ⟨hbefore, [0x2e, b], .inr ⟨b, hb, rfl⟩, hjoin.symm⟩
      next => cases h
  · rintro ⟨hdot, suffix, hsuffix, rfl⟩
    have hall : ∀ c ∈ t, decide (c ≠ 0x2e) = true := by
      intro c hc
      rw [decide_eq_true_eq]
      rintro rfl
      exact hdot hc
    rw [List.dropWhile_append_of_pos hall, List.takeWhile_append_of_pos hall]
    rcases hsuffix with rfl | ⟨c, hc, rfl⟩
    · simp
    · obtain ⟨size, hsize⟩ := Option.isSome_iff_exists.mp (isSome_ofSuffix_iff.mpr ⟨c, hc, rfl⟩)
      simp [hsize]

private theorem arranged_iff {letter : UInt8} {limit : Nat} (hlimit : limit ≤ 256)
    (hdot : letter ≠ 0x2e) {s : Bytes} {n : UInt8} :
    (∃ t, dropArrangement s = .ok t ∧ numberBelow letter limit t = .ok n) ↔
      Arranged letter limit s n := by
  simp only [dropArrangement_eq_ok_iff, numberBelow_eq_ok_iff hlimit]
  constructor
  · rintro ⟨t, ⟨-, suffix, hsuffix, rfl⟩, ht⟩
    exact ⟨t, suffix, ht, hsuffix, rfl⟩
  · rintro ⟨t, suffix, ht, hsuffix, rfl⟩
    exact ⟨t, ⟨ht.dot_notMem hdot, suffix, hsuffix, rfl⟩, ht⟩

private theorem exists_anyCase_iff {P : Bytes → Prop} (hclear : ∀ t, P t → Clear t) {s : Bytes} :
    P (Text.lower s) ↔ ∃ t, P t ∧ AnyCase t s := by
  constructor
  · intro h
    exact ⟨_, h, (Text.lower_eq_iff (hclear _ h)).mp rfl⟩
  · rintro ⟨t, ht, hcase⟩
    rwa [(Text.lower_eq_iff (hclear t ht)).mpr hcase]

theorem vector_eq_ok_iff {s : Bytes} {z : VectorRegister} :
    vector s = .ok z ↔ ∃ t, VectorText t z ∧ AnyCase t s := by
  have hclear : ∀ t, VectorText t z → Clear t := fun t ht => ht.clear rfl
  rw [← exists_anyCase_iff hclear, VectorText, ← arranged_iff (by decide) (by decide), vector]
  cases z
  simp [ok_bind_iff, pure, Except.pure]

private theorem plainPredicate_eq_ok_iff {s : Bytes} {p : PredicateRegister} :
    plainPredicate s = .ok p ↔ Arranged 0x70 16 (Text.lower s) p.number := by
  rw [← arranged_iff (by decide) (by decide), plainPredicate]
  cases p
  simp [ok_bind_iff, pure, Except.pure]

private theorem dropEnding_eq_some_iff {ending s t : Bytes} :
    dropEnding? ending s = some t ↔ s = t ++ ending := by
  rw [dropEnding?, Option.ite_none_right_eq_some, List.isSuffixOf_iff_suffix]
  constructor
  · rintro ⟨⟨u, rfl⟩, h⟩
    rw [← Option.some.inj h, List.length_append, Nat.add_sub_cancel, List.take_left]
  · rintro rfl
    refine ⟨List.suffix_append t ending, ?_⟩
    rw [List.length_append, Nat.add_sub_cancel, List.take_left]

/-- A qualified predicate is put in lower case twice, which changes nothing. -/
private theorem qualified_iff {ending s : Bytes} {n : UInt8} :
    (∃ t, Text.lower s = t ++ ending ∧ Arranged 0x70 16 (Text.lower t) n) ↔
      ∃ t, Arranged 0x70 16 t n ∧ Text.lower s = t ++ ending := by
  have hsublist {t : Bytes} (h : Text.lower s = t ++ ending) : t.Sublist (Text.lower s) := by
    rw [h]
    exact List.sublist_append_left t ending
  constructor
  · rintro ⟨t, h, ht⟩
    have hlower := (Text.lower_of_sublist (ht.clear rfl) (hsublist h)).mp rfl
    rw [← hlower] at ht
    exact ⟨t, ht, h⟩
  · rintro ⟨t, ht, h⟩
    have hlower := (Text.lower_of_sublist (ht.clear rfl) (hsublist h)).mpr rfl
    refine ⟨t, h, ?_⟩
    rwa [hlower]

theorem predicate_eq_ok_iff {view : Predication} {s : Bytes} {p : PredicateRegister} :
    predicate view s = .ok p ↔ ∃ t, PredicateText view t p ∧ AnyCase t s := by
  have hclear : ∀ t, PredicateText view t p → Clear t := by
    rintro t ⟨u, hu, rfl⟩
    refine Text.clear_append.mpr ⟨hu.clear rfl, ?_⟩
    cases view <;> decide +kernel
  -- the two qualifiers are dropped alike, and without one there is nothing to drop
  have hqualified (hview : view ≠ .plain) :
      predicate view s = .ok p ↔ PredicateText view (Text.lower s) p := by
    rw [PredicateText, ← qualified_iff]
    simp only [← plainPredicate_eq_ok_iff, ← dropEnding_eq_some_iff]
    cases view with
    | plain => exact absurd rfl hview
    | merging | zeroing =>
      rw [predicate]
      split
      next t ht => simp [ht]
      next hnone => simp [hnone]
  rw [← exists_anyCase_iff hclear]
  cases view with
  | plain =>
    have hnil : Bytes.ofString Predication.plain.qualifier = [] := rfl
    rw [predicate, plainPredicate_eq_ok_iff, PredicateText, hnil]
    simp
  | merging | zeroing => exact hqualified (by decide)

theorem scalar_eq_ok_iff {s : Bytes} {v : ScalarRegister} :
    scalar s = .ok v ↔ ∃ t, ScalarText t v ∧ AnyCase t s := by
  have hclear : ∀ t, ScalarText t v → Clear t := by
    have hletters : Clear (Bytes.ofString "vbhsdq") := by decide +kernel
    rintro t ⟨letter, hletter, ht⟩
    exact ht.clear (hletters letter hletter)
  rw [← exists_anyCase_iff hclear, scalar]
  generalize Text.lower s = name
  constructor
  · intro h
    split at h
    next letter hletter =>
      rw [Option.filter_eq_some_iff] at hletter
      obtain ⟨n, hn, rfl⟩ := ok_map_iff.mp h
      exact ⟨letter, List.contains_iff_mem.mp hletter.2, (numberBelow_eq_ok_iff (by decide)).mp hn⟩
    next => cases h
  · rintro ⟨letter, hletter, ht⟩
    have hcontains : scalarLetters.contains letter = true := List.contains_iff_mem.mpr hletter
    have hn := (numberBelow_eq_ok_iff (by decide)).mpr ht
    obtain ⟨digits, -, -, rfl⟩ := ht
    simp only [List.head?_cons, Option.filter, hcontains, if_true, hn]
    rfl

private theorem second_of_numbered {letter : UInt8} {limit : Nat} {t : Bytes} {n : UInt8}
    (h : Numbered letter limit t n) : ∃ c, t[1]? = some c ∧ Number.isDigit c = true := by
  obtain ⟨digits, ⟨ds, hne, hds, rfl, -⟩, -, rfl⟩ := h
  cases ds with
  | nil => exact absurd rfl hne
  | cons d ds => exact ⟨digitByte d, rfl, Number.isDigit_digitByte (hds d List.mem_cons_self)⟩

private theorem find_named {letter : UInt8} {limit : Nat} {t : Bytes} {n : UInt8}
    (h : Numbered letter limit t n) :
    (namedGeneral.find? fun entry => Bytes.ofString entry.1 = t) = none := by
  have hnames : ∀ entry ∈ namedGeneral, ∀ c ∈ (Bytes.ofString entry.1)[1]?,
      Number.isDigit c = false := by decide +kernel
  obtain ⟨c, hc, hdigit⟩ := second_of_numbered h
  rw [List.find?_eq_none]
  intro entry hentry heq
  have hother := hnames entry hentry c (by rw [of_decide_eq_true heq, hc]; rfl)
  rw [hdigit] at hother
  cases hother

private theorem general_views (n : UInt8) :
    (!decide (n.toNat < 31) || decide (GeneralRegister.x n.toUInt32 = ⟨n⟩) &&
      decide (GeneralRegister.w n.toUInt32 = ⟨32 + n⟩)) = true := by
  revert n
  exact Text.forall_byte (by decide +kernel)

private theorem views_of_lt {n : UInt8} (h : n.toNat < 31) :
    GeneralRegister.x n.toUInt32 = ⟨n⟩ ∧ GeneralRegister.w n.toUInt32 = ⟨32 + n⟩ := by
  have hviews := general_views n
  rw [decide_eq_true h] at hviews
  simpa using hviews

theorem general_eq_ok_iff {s : Bytes} {r : GeneralRegister} :
    general s = .ok r ↔ ∃ t, GeneralText t r ∧ AnyCase t s := by
  rw [← exists_anyCase_iff (P := (GeneralText · r)) fun _ ht => ht.clear, general]
  generalize Text.lower s = name
  constructor
  · intro h
    split at h
    next entry hentry =>
      have hname := List.find?_some hentry
      obtain rfl := of_decide_eq_true hname
      obtain rfl := Except.ok.inj h
      have hmem := List.mem_of_find?_eq_some hentry
      simp only [namedGeneral, List.mem_cons, List.not_mem_nil, or_false] at hmem
      rcases hmem with rfl | rfl | rfl | rfl
      · exact .sp
      · exact .xzr
      · exact .wsp
      · exact .wzr
    next =>
      split at h
      next =>
        obtain ⟨n, hn, rfl⟩ := ok_map_iff.mp h
        have ht := (numberBelow_eq_ok_iff (by decide)).mp hn
        obtain ⟨-, -, hlt, -⟩ := id ht
        rw [(views_of_lt hlt).2]
        exact .w ht
      next =>
        obtain ⟨n, hn, rfl⟩ := ok_map_iff.mp h
        have ht := (numberBelow_eq_ok_iff (by decide)).mp hn
        obtain ⟨-, -, hlt, -⟩ := id ht
        rw [(views_of_lt hlt).1]
        exact .x ht
  · intro h
    cases h with
    | sp | xzr | wsp | wzr => rfl
    | x ht =>
      have hn := (numberBelow_eq_ok_iff (by decide)).mpr ht
      rw [find_named ht, hn]
      obtain ⟨digits, -, hlt, rfl⟩ := ht
      rw [List.head?_cons, if_neg (by decide), Except.map, (views_of_lt hlt).1]
    | w ht =>
      have hn := (numberBelow_eq_ok_iff (by decide)).mpr ht
      rw [find_named ht, hn]
      obtain ⟨digits, -, hlt, rfl⟩ := ht
      rw [List.head?_cons, if_pos rfl, Except.map, (views_of_lt hlt).2]

/-- Every register operand is read by exactly its grammar, and the value is the number that its
text denotes. -/
theorem registers_read_iff (s : Bytes) :
    (∀ z, vector s = .ok z ↔ ∃ t, VectorText t z ∧ AnyCase t s) ∧
    (∀ view p, predicate view s = .ok p ↔ ∃ t, PredicateText view t p ∧ AnyCase t s) ∧
    (∀ v, scalar s = .ok v ↔ ∃ t, ScalarText t v ∧ AnyCase t s) ∧
    (∀ r, general s = .ok r ↔ ∃ t, GeneralText t r ∧ AnyCase t s) := by
  refine ⟨?_, ?_, ?_, ?_⟩
  · intro z
    exact vector_eq_ok_iff
  · intro view p
    exact predicate_eq_ok_iff
  · intro v
    exact scalar_eq_ok_iff
  · intro r
    exact general_eq_ok_iff

end Reader

end ScalableVector
