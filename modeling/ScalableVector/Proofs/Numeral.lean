import Mathlib.Algebra.Ring.Int.Defs
import Mathlib.Algebra.Ring.Nat
import ScalableVector.Number.Integer
import ScalableVector.Proofs.AnyCase

/-!
# Texts of numbers

The grammar of integer literals, over texts in lower case: decimal digits, a leading zero for octal
ones, or a base mark, with single underscores in front of digits. The readers accept the texts of
this grammar in any letter case and no others, and return the number that the digits denote.
-/

namespace ScalableVector.Number

open Text (AnyCase spells spells_iff)

def digitByte (d : Nat) : UInt8 := UInt8.ofNat (if d < 10 then 0x30 + d else 0x57 + d)

/-- The number that `n` becomes when digits of the base are appended to it. -/
def appended (base n : Nat) (ds : List Nat) : Nat := ds.foldl (fun n d => n * base + d) n

def ofDigits (base : Nat) (ds : List Nat) : Nat := appended base 0 ds

/-- Digits of the base in a row, each perhaps behind an underscore. -/
inductive Spaced (base : Nat) : List Nat → Bytes → Prop
  | nil : Spaced base [] []
  | digit {d : Nat} {ds : List Nat} {t : Bytes} (hd : d < base) (h : Spaced base ds t) :
      Spaced base (d :: ds) (digitByte d :: t)
  | underscore {d : Nat} {ds : List Nat} {t : Bytes} (hd : d < base) (h : Spaced base ds t) :
      Spaced base (d :: ds) (0x5f :: digitByte d :: t)

def baseMarks : List (UInt8 × Nat) := [(0x62, 2), (0x6f, 8), (0x78, 16)]

/-- The text of a literal without a sign, and its number. -/
inductive Magnitude : Bytes → Nat → Prop
  | decimal {d : Nat} {ds : List Nat} {t : Bytes} (hpos : 0 < d) (hd : d < 10)
      (h : Spaced 10 ds t) : Magnitude (digitByte d :: t) (ofDigits 10 (d :: ds))
  | octal {ds : List Nat} {t : Bytes} (h : Spaced 8 ds t) :
      Magnitude (0x30 :: t) (ofDigits 8 ds)
  | marked {mark : UInt8} {base : Nat} {ds : List Nat} {t : Bytes}
      (hmark : (mark, base) ∈ baseMarks) (hne : ds ≠ []) (h : Spaced base ds t) :
      Magnitude (0x30 :: mark :: t) (ofDigits base ds)

/-- The text of a literal with an optional sign, and its integer. -/
inductive IntegerText : Bytes → Int → Prop
  | plain {t : Bytes} {n : Nat} (h : Magnitude t n) : IntegerText t n
  | plus {t : Bytes} {n : Nat} (h : Magnitude t n) : IntegerText (0x2b :: t) n
  | minus {t : Bytes} {n : Nat} (h : Magnitude t n) : IntegerText (0x2d :: t) (-n)

def Numeral (t : Bytes) (n : Nat) : Prop :=
  ∃ ds : List Nat, ds ≠ [] ∧ (∀ d ∈ ds, d < 10) ∧ t = ds.map digitByte ∧ n = ofDigits 10 ds

def Preceding.written : Preceding → Bytes
  | .underscore => [0x5f]
  | _ => []

theorem appended_cons (base n d : Nat) (ds : List Nat) :
    appended base n (d :: ds) = appended base (n * base + d) ds := rfl

theorem le_appended {base : Nat} (hbase : 0 < base) (n : Nat) (ds : List Nat) :
    n ≤ appended base n ds := by
  induction ds generalizing n with
  | nil => exact Nat.le_refl n
  | cons d ds ih =>
    calc n ≤ n * base := Nat.le_mul_of_pos_right n hbase
      _ ≤ n * base + d := Nat.le_add_right _ d
      _ ≤ appended base n (d :: ds) := ih _

theorem isDigit_iff {c : UInt8} : isDigit c = true ↔ 0x30 ≤ c.toNat ∧ c.toNat ≤ 0x39 := by
  simp only [isDigit, Bool.and_eq_true, decide_eq_true_eq, UInt8.le_iff_toNat_le]
  exact Iff.rfl

theorem toNat_digitByte {d : Nat} (hd : d < 16) :
    (digitByte d).toNat = if d < 10 then 0x30 + d else 0x57 + d := by
  apply UInt8.toNat_ofNat_of_lt'
  change _ < 256
  split <;> omega

theorem isDigit_digitByte {d : Nat} (hd : d < 10) : isDigit (digitByte d) = true := by
  rw [isDigit_iff, toNat_digitByte (by omega), if_pos hd]
  omega

private theorem digitByte_of_isDigit {c : UInt8} (h : isDigit c = true) :
    digitByte (c.toNat - 0x30) = c ∧ c.toNat - 0x30 < 10 := by
  rw [isDigit_iff] at h
  have hlt : c.toNat - 0x30 < 10 := by omega
  refine ⟨?_, hlt⟩
  rw [← UInt8.toNat_inj, toNat_digitByte (by omega), if_pos hlt]
  omega

private theorem digitIn_sixteen (c : UInt8) :
    ((List.range 16).all fun d => spells (digitByte d) c == (digitIn? 16 c == some d)) = true := by
  revert c
  exact Text.forall_byte (by decide +kernel)

theorem digitIn_eq_some_iff {base d : Nat} {c : UInt8} (hbase : base ≤ 16) :
    digitIn? base c = some d ↔ d < base ∧ spells (digitByte d) c = true := by
  have hsixteen {d : Nat} (hd : d < 16) :
      spells (digitByte d) c = true ↔ digitIn? 16 c = some d := by
    have h := List.all_eq_true.mp (digitIn_sixteen c) d (List.mem_range.mpr hd)
    rw [beq_iff_eq] at h
    rw [h, beq_iff_eq]
  rw [digitIn?, Option.filter_eq_some_iff, decide_eq_true_eq]
  constructor
  · rintro ⟨hvalue, hd⟩
    refine ⟨hd, (hsixteen (by omega)).mpr ?_⟩
    rw [digitIn?, Option.filter_eq_some_iff, decide_eq_true_eq]
    exact ⟨hvalue, by omega⟩
  · rintro ⟨hd, hspells⟩
    have h := (hsixteen (by omega)).mp hspells
    rw [digitIn?, Option.filter_eq_some_iff] at h
    exact ⟨h.1, hd⟩

private theorem toNat_of_decimal {d : Nat} {c : UInt8} (h : digitIn? 10 c = some d) :
    d < 10 ∧ c.toNat = 0x30 + d := by
  obtain ⟨hd, hspells⟩ := (digitIn_eq_some_iff (by decide)).mp h
  rw [spells_iff, ← UInt8.toNat_inj, toNat_digitByte (by omega), if_pos hd] at hspells
  exact ⟨hd, by omega⟩

private theorem appendDigits_underscore (base max n : Nat) (s : Bytes) :
    appendDigits base max true n (0x5f :: s) = appendDigits base max true n s := rfl

private theorem separatedAfter_underscore (hex : Bool) (last : Preceding) (s : Bytes) :
    separatedAfter hex last (0x5f :: s) = (last == .digit && separatedAfter hex .underscore s) := by
  have hdigit : (isDigit 0x5f || (hex && (digitIn? 16 0x5f).isSome)) = false := by
    cases hex <;> rfl
  rw [separatedAfter, hdigit]
  rfl

section Run

variable {base max : Nat} (hbase : base ≤ 10 ∨ base = 16)
include hbase

private theorem digitIn_sixteen_of_digitIn {d : Nat} {c : UInt8} (h : digitIn? base c = some d) :
    digitIn? 16 c = some d := by
  rw [digitIn_eq_some_iff (by omega)] at h
  rw [digitIn_eq_some_iff (Nat.le_refl 16)]
  exact ⟨by omega, h.2⟩

private theorem ne_underscore_of_digitIn {d : Nat} {c : UInt8} (h : digitIn? base c = some d) :
    c ≠ 0x5f := by
  obtain ⟨hd, hspells⟩ := (digitIn_eq_some_iff (by omega)).mp h
  rw [spells_iff, ← UInt8.toNat_inj, toNat_digitByte (by omega)] at hspells
  rintro rfl
  change 0x5f = _ ∨ _ ∧ _ ∧ 0x5f + 0x20 = _ at hspells
  split at hspells <;> omega

private theorem appendDigits_digit {n d : Nat} {c : UInt8} (h : digitIn? base c = some d)
    (s : Bytes) :
    appendDigits base max true n (c :: s) =
      if max < n * base + d then .error .overflow
      else appendDigits base max true (n * base + d) s := by
  have hne : (c == 0x5f) = false := beq_eq_false_iff_ne.mpr (ne_underscore_of_digitIn hbase h)
  rw [appendDigits, hne, h]
  rfl

private theorem isDigit_of_digitIn {d : Nat} {c : UInt8} (h : digitIn? base c = some d) :
    (isDigit c || (base == 16 && (digitIn? 16 c).isSome)) = true := by
  have hsixteen := digitIn_sixteen_of_digitIn hbase h
  rcases hbase with hten | rfl
  · have hsmall : digitIn? 10 c = some d := by
      rw [digitIn_eq_some_iff (by omega)] at h
      rw [digitIn_eq_some_iff (by decide)]
      exact ⟨by omega, h.2⟩
    obtain ⟨hd, hc⟩ := toNat_of_decimal hsmall
    have hdigit : isDigit c = true := by
      rw [isDigit_iff]
      omega
    rw [hdigit, Bool.true_or]
  · simp [hsixteen]

private theorem separatedAfter_digit {d : Nat} {c : UInt8} (h : digitIn? base c = some d)
    (last : Preceding) (s : Bytes) :
    separatedAfter (base == 16) last (c :: s) = separatedAfter (base == 16) .digit s := by
  rw [separatedAfter, if_pos (isDigit_of_digitIn hbase h)]

/-- The digits that are appended are written in the text, the byte before it counting with it. -/
private theorem spaced_of_appendDigits {last : Preceding} {n m : Nat} {s : Bytes}
    (h : appendDigits base max true n s = .ok m) (hsep : separatedAfter (base == 16) last s = true)
    (hlast : last = .digit ∨ last = .underscore) (hn : n ≤ max) :
    m ≤ max ∧ ∃ ds t, Spaced base ds (last.written ++ t) ∧ AnyCase t s ∧
      m = appended base n ds := by
  -- an underscore has to find its digit behind it, so the byte before `s` is carried along
  induction s generalizing last n with
  | nil =>
    rw [appendDigits] at h
    obtain rfl := Except.ok.inj h
    rcases hlast with rfl | rfl
    · exact ⟨hn, [], [], .nil, .nil, rfl⟩
    · cases hsep
  | cons c s ih =>
    by_cases hc : c = 0x5f
    · subst hc
      rw [appendDigits_underscore] at h
      rw [separatedAfter_underscore] at hsep
      rcases hlast with rfl | rfl
      · obtain ⟨hm, ds, t, hspaced, hcase, rfl⟩ := ih h hsep (.inr rfl) hn
        exact ⟨hm, ds, 0x5f :: t, hspaced, .cons rfl hcase, rfl⟩
      · cases hsep
    · cases hd : digitIn? base c with
      | none =>
        rw [appendDigits, hd] at h
        simp [hc] at h
      | some d =>
        rw [appendDigits_digit hbase hd] at h
        rw [separatedAfter_digit hbase hd] at hsep
        split at h
        · cases h
        next hmax =>
          obtain ⟨hm, ds, t, hspaced, hcase, rfl⟩ := ih h hsep (.inl rfl) (by omega)
          obtain ⟨hlt, hspells⟩ := (digitIn_eq_some_iff (by omega)).mp hd
          refine ⟨hm, d :: ds, digitByte d :: t, ?_, .cons hspells hcase, rfl⟩
          rcases hlast with rfl | rfl
          · exact .digit hlt hspaced
          · exact .underscore hlt hspaced

private theorem appendDigits_of_spaced (hpos : 0 < base) {n : Nat} {ds : List Nat} {t s : Bytes}
    (h : Spaced base ds t) (hcase : AnyCase t s) (hmax : appended base n ds ≤ max) :
    appendDigits base max true n s = .ok (appended base n ds) ∧
      separatedAfter (base == 16) .digit s = true := by
  have hnext (n d : Nat) (ds : List Nat) (hmax : appended base n (d :: ds) ≤ max) :
      ¬max < n * base + d :=
    Nat.not_lt.mpr (Nat.le_trans (le_appended hpos _ ds) hmax)
  induction h generalizing n s with
  | nil =>
    obtain rfl := AnyCase.nil_left.mp hcase
    exact ⟨rfl, rfl⟩
  | @digit d ds t hd _ ih =>
    obtain ⟨c, u, hspells, hrest, rfl⟩ := AnyCase.cons_left.mp hcase
    have hdigit := (digitIn_eq_some_iff (by omega)).mpr ⟨hd, hspells⟩
    rw [appendDigits_digit hbase hdigit, separatedAfter_digit hbase hdigit,
      if_neg (hnext n d ds hmax)]
    exact ih hrest hmax
  | @underscore d ds t hd _ ih =>
    obtain ⟨b, v, hmark, htail, rfl⟩ := AnyCase.cons_left.mp hcase
    obtain ⟨c, u, hspells, hrest, rfl⟩ := AnyCase.cons_left.mp htail
    obtain rfl : b = 0x5f := by simpa [spells] using hmark
    have hdigit := (digitIn_eq_some_iff (by omega)).mpr ⟨hd, hspells⟩
    rw [appendDigits_underscore, separatedAfter_underscore, appendDigits_digit hbase hdigit,
      separatedAfter_digit hbase hdigit, if_neg (hnext n d ds hmax)]
    exact ih hrest hmax

end Run

private theorem separatedAfter_of_notMem {s : Bytes} (h : 0x5f ∉ s) (hex : Bool) {last : Preceding}
    (hlast : last ≠ .underscore) : separatedAfter hex last s = true := by
  induction s generalizing last with
  | nil => exact bne_iff_ne.mpr hlast
  | cons c s ih =>
    obtain ⟨hc, hs⟩ := not_or.mp (mt List.mem_cons.mpr h)
    rw [separatedAfter]
    split
    · exact ih hs (by decide)
    · rw [if_neg (by simpa using Ne.symm hc), ih hs (by decide), Bool.and_true]
      exact bne_iff_ne.mpr hlast

private theorem notMem_dropSign {s : Bytes} (h : 0x5f ∉ s) : 0x5f ∉ dropSign s := by
  cases s with
  | nil => exact h
  | cons c s =>
    rw [dropSign]
    split
    · exact fun hmem => h (List.mem_cons_of_mem c hmem)
    · exact h

private theorem wellSeparated_of_notMem {s : Bytes} (h : 0x5f ∉ s) : wellSeparated s = true := by
  have hdrop := notMem_dropSign h
  rw [wellSeparated]
  split
  next c t heq =>
    rw [heq] at hdrop
    split
    · exact separatedAfter_of_notMem (by grind) _ (by decide)
    · exact separatedAfter_of_notMem hdrop _ (by decide)
  next => exact separatedAfter_of_notMem hdrop _ (by decide)

private theorem literal_eq_ok {max n : Nat} {s : Bytes} :
    literal max s = .ok n ↔ s ≠ [] ∧
      appendDigits (splitBase s).1 max true 0 (splitBase s).2 = .ok n ∧ wellSeparated s = true := by
  rw [literal]
  cases s with
  | nil => simp
  | cons c s =>
    simp only [List.isEmpty_cons, Bool.false_eq_true, if_false, ne_eq, reduceCtorEq,
      not_false_eq_true, true_and]
    cases happend : appendDigits (splitBase (c :: s)).1 max true 0 (splitBase (c :: s)).2 with
    | error f => simp
    | ok m =>
      by_cases hmem : 0x5f ∈ c :: s
      · by_cases hsep : wellSeparated (c :: s) = true
        · simp [hsep]
        · simp only [List.contains_iff_mem.mpr hmem, Bool.true_and, hsep]
          simp
      · simp [hmem, wellSeparated_of_notMem hmem]

private def isBaseMark (c : UInt8) : Bool := isMark 0x62 c || isMark 0x6f c || isMark 0x78 c

private theorem mark_cases (c : UInt8) :
    ((baseMarks.all fun m => spells m.1 c == isMark m.1 c) &&
      (!isBaseMark c || c != 0x5f && (digitIn? 8 c).isNone)) = true := by
  revert c
  exact Text.forall_byte (by decide +kernel)

private theorem spells_mark {mark c : UInt8} {base : Nat} (h : (mark, base) ∈ baseMarks) :
    spells mark c = isMark mark c := by
  have hcases := (Bool.and_eq_true_iff.mp (mark_cases c)).1
  exact eq_of_beq (List.all_eq_true.mp hcases _ h)

private theorem split_marked {mark c d : UInt8} {base : Nat} (h : (mark, base) ∈ baseMarks)
    (hc : isMark mark c = true) (s : Bytes) :
    splitBase (0x30 :: c :: d :: s) = (base, d :: s) ∧
      wellSeparated (0x30 :: c :: d :: s) = separatedAfter (base == 16) .digit (d :: s) := by
  have hmark : c ||| 0x20 = mark := eq_of_beq hc
  simp only [baseMarks, List.mem_cons, Prod.mk.injEq, List.not_mem_nil, or_false] at h
  rcases h with ⟨rfl, rfl⟩ | ⟨rfl, rfl⟩ | ⟨rfl, rfl⟩
  all_goals simp [splitBase, wellSeparated, dropSign, isMark, hmark]

private theorem split_octal {s : Bytes} (h : ∀ c ∈ s.head?, isBaseMark c = false) :
    splitBase (0x30 :: s) = (8, s) ∧
      wellSeparated (0x30 :: s) = separatedAfter false .digit s := by
  match s, h with
  | [], _ => exact ⟨rfl, rfl⟩
  | [c], h =>
    have hc := h c rfl
    simp only [isBaseMark] at hc
    refine ⟨rfl, ?_⟩
    simp [wellSeparated, dropSign, hc, separatedAfter, isDigit]
  | c :: d :: s, h =>
    have hc := h c rfl
    have hmarks := hc
    simp only [isBaseMark, Bool.or_eq_false_iff] at hmarks
    simp only [isBaseMark] at hc
    refine ⟨by simp [splitBase, hmarks.1.1, hmarks.1.2, hmarks.2], ?_⟩
    rw [wellSeparated]
    simp [dropSign, hc]
    rw [separatedAfter]
    rfl

theorem splitBase_of_ne {c : UInt8} (hc : c ≠ 0x30) (s : Bytes) :
    splitBase (c :: s) = (10, c :: s) := by
  rw [splitBase.eq_def]
  split
  next heq => exact absurd (List.cons.inj heq).1 hc
  next heq => exact absurd (List.cons.inj heq).1 hc
  next => rfl

private theorem wellSeparated_of_ne {c : UInt8} (hc : c ≠ 0x30)
    (hsign : (c == 0x2b || c == 0x2d) = false) (s : Bytes) :
    wellSeparated (c :: s) = separatedAfter false .start (c :: s) := by
  rw [wellSeparated, dropSign, hsign, if_neg (by decide)]
  split
  next heq => exact absurd (List.cons.inj heq).1 hc
  next => rfl

private theorem unsigned_of_decimal {d : Nat} {c : UInt8} (h : digitIn? 10 c = some d) :
    (c == 0x2b || c == 0x2d) = false := by
  obtain ⟨-, hc⟩ := toNat_of_decimal h
  rw [Bool.or_eq_false_iff, beq_eq_false_iff_ne, beq_eq_false_iff_ne]
  constructor
  all_goals
    rintro rfl
    simp only [UInt8.toNat_ofNat] at hc
    omega

private theorem split_decimal {c : UInt8} {d : Nat} (h : digitIn? 10 c = some d) (hd : 0 < d)
    (s : Bytes) :
    splitBase (c :: s) = (10, c :: s) ∧
      wellSeparated (c :: s) = separatedAfter false .digit s := by
  have hc : c ≠ 0x30 := by
    rintro rfl
    have hzero := (toNat_of_decimal h).2
    simp only [UInt8.toNat_ofNat] at hzero
    omega
  refine ⟨splitBase_of_ne hc s, ?_⟩
  rw [wellSeparated_of_ne hc (unsigned_of_decimal h)]
  exact separatedAfter_digit (.inl (Nat.le_refl 10)) h .start s

private theorem head_of_appendDigits {max n m : Nat} {s : Bytes}
    (h : appendDigits 8 max true n s = .ok m) : ∀ c ∈ s.head?, isBaseMark c = false := by
  intro c hc
  cases s with
  | nil => cases hc
  | cons b s =>
    obtain rfl : b = c := Option.some.inj hc
    by_contra hmark
    have hcases := (Bool.and_eq_true_iff.mp (mark_cases b)).2
    rw [Bool.not_eq_false] at hmark
    simp only [hmark, Bool.not_true, Bool.false_or, Bool.and_eq_true, bne_iff_ne,
      Option.isNone_iff_eq_none] at hcases
    rw [appendDigits, hcases.2] at h
    simp [hcases.1] at h

private theorem exists_mark {c : UInt8} (h : isBaseMark c = true) :
    ∃ mark base, (mark, base) ∈ baseMarks ∧ isMark mark c = true := by
  simp only [isBaseMark, Bool.or_eq_true] at h
  rcases h with (h | h) | h
  · exact ⟨0x62, 2, by decide, h⟩
  · exact ⟨0x6f, 8, by decide, h⟩
  · exact ⟨0x78, 16, by decide, h⟩

private theorem base_of_mark {mark : UInt8} {base : Nat} (h : (mark, base) ∈ baseMarks) :
    0 < base ∧ (base ≤ 10 ∨ base = 16) := by
  simp only [baseMarks, List.mem_cons, Prod.mk.injEq, List.not_mem_nil, or_false] at h
  rcases h with ⟨-, rfl⟩ | ⟨-, rfl⟩ | ⟨-, rfl⟩
  all_goals decide

section Read

variable {max n : Nat}

private theorem magnitude_of_marked {b d : UInt8} {u : Bytes} (hb : isBaseMark b = true)
    (h : literal max (0x30 :: b :: d :: u) = .ok n) :
    n ≤ max ∧ ∃ t, Magnitude t n ∧ AnyCase t (0x30 :: b :: d :: u) := by
  obtain ⟨-, happend, hsep⟩ := literal_eq_ok.mp h
  obtain ⟨mark, base, hmem, hmark⟩ := exists_mark hb
  obtain ⟨hsplit, hwell⟩ := split_marked (d := d) hmem hmark u
  obtain ⟨-, hbase⟩ := base_of_mark hmem
  rw [hsplit] at happend
  rw [hwell] at hsep
  obtain ⟨hmax, ds, t, hspaced, hcase, rfl⟩ :=
    spaced_of_appendDigits hbase happend hsep (.inl rfl) (Nat.zero_le max)
  have hds : ds ≠ [] := by
    rintro rfl
    cases hspaced
    cases hcase
  refine ⟨hmax, 0x30 :: mark :: t, .marked hmem hds hspaced, .cons rfl (.cons ?_ hcase)⟩
  rw [spells_mark hmem, hmark]

private theorem magnitude_of_octal {s : Bytes} (hs : ∀ b ∈ s.head?, isBaseMark b = false)
    (h : literal max (0x30 :: s) = .ok n) :
    n ≤ max ∧ ∃ t, Magnitude t n ∧ AnyCase t (0x30 :: s) := by
  obtain ⟨-, happend, hsep⟩ := literal_eq_ok.mp h
  obtain ⟨hsplit, hwell⟩ := split_octal hs
  rw [hsplit] at happend
  rw [hwell] at hsep
  obtain ⟨hmax, ds, t, hspaced, hcase, rfl⟩ :=
    spaced_of_appendDigits (.inl (Nat.le_add_right 8 2)) happend hsep (.inl rfl) (Nat.zero_le max)
  exact ⟨hmax, 0x30 :: t, .octal hspaced, .cons rfl hcase⟩

private theorem magnitude_of_decimal {c : UInt8} {s : Bytes} (hc : c ≠ 0x30)
    (h : literal max (c :: s) = .ok n) :
    n ≤ max ∧ ∃ t, Magnitude t n ∧ AnyCase t (c :: s) := by
  obtain ⟨-, happend, hsep⟩ := literal_eq_ok.mp h
  rw [splitBase_of_ne hc] at happend
  by_cases hunderscore : c = 0x5f
  · subst hunderscore
    rw [wellSeparated_of_ne hc rfl, separatedAfter_underscore] at hsep
    cases hsep
  cases hdigit : digitIn? 10 c with
  | none =>
    rw [appendDigits, hdigit] at happend
    simp [hunderscore] at happend
  | some d =>
    obtain ⟨hd, hspells⟩ := (digitIn_eq_some_iff (by decide)).mp hdigit
    have hpos : 0 < d := by
      rw [Nat.pos_iff_ne_zero]
      rintro rfl
      exact hc (by simpa [spells, digitByte] using hspells)
    rw [(split_decimal hdigit hpos s).2] at hsep
    rw [appendDigits_digit (.inl (by decide)) hdigit] at happend
    split at happend
    · cases happend
    next hmax =>
      obtain ⟨hle, ds, t, hspaced, hcase, rfl⟩ :=
        spaced_of_appendDigits (.inl (by decide)) happend hsep (.inl rfl) (Nat.not_lt.mp hmax)
      exact ⟨hle, digitByte d :: t, .decimal hpos hd hspaced, .cons hspells hcase⟩

private theorem magnitude_of_literal {s : Bytes} (h : literal max s = .ok n) :
    n ≤ max ∧ ∃ t, Magnitude t n ∧ AnyCase t s := by
  cases s with
  | nil => exact absurd rfl (literal_eq_ok.mp h).1
  | cons c s =>
    by_cases hc : c = 0x30
    · subst hc
      match s, h with
      | [], h => exact magnitude_of_octal (by simp) h
      | [b], h =>
        -- a mark without digits behind it is no octal digit either
        exact magnitude_of_octal (head_of_appendDigits (literal_eq_ok.mp h).2.1) h
      | b :: d :: u, h =>
        cases hmark : isBaseMark b with
        | true => exact magnitude_of_marked hmark h
        | false => exact magnitude_of_octal (by simpa using hmark) h
    · exact magnitude_of_decimal hc h

end Read

private theorem literal_of_magnitude {max n : Nat} {s t : Bytes} (h : Magnitude t n)
    (hcase : AnyCase t s) (hmax : n ≤ max) : literal max s = .ok n := by
  rw [literal_eq_ok]
  cases h with
  | @decimal d ds t hpos hd hspaced =>
    obtain ⟨c, u, hspells, hrest, rfl⟩ := AnyCase.cons_left.mp hcase
    have hdigit := (digitIn_eq_some_iff (by decide)).mpr ⟨hd, hspells⟩
    obtain ⟨hsplit, hwell⟩ := split_decimal hdigit hpos u
    have hnext : ¬max < 0 * 10 + d :=
      Nat.not_lt.mpr (Nat.le_trans (le_appended (by decide) _ ds) hmax)
    obtain ⟨happend, hsep⟩ :=
      appendDigits_of_spaced (.inl (by decide)) (by decide) hspaced hrest hmax
    rw [hsplit, hwell, appendDigits_digit (.inl (by decide)) hdigit, if_neg hnext]
    exact ⟨by simp, happend, hsep⟩
  | @octal ds t hspaced =>
    obtain ⟨c, u, hspells, hrest, rfl⟩ := AnyCase.cons_left.mp hcase
    obtain rfl : c = 0x30 := by simpa [spells] using hspells
    obtain ⟨happend, hsep⟩ :=
      appendDigits_of_spaced (.inl (by decide)) (by decide) hspaced hrest hmax
    obtain ⟨hsplit, hwell⟩ := split_octal (head_of_appendDigits happend)
    rw [hsplit, hwell]
    exact ⟨by simp, happend, hsep⟩
  | @marked mark base ds t hmem hne hspaced =>
    obtain ⟨c, v, hzero, htail, rfl⟩ := AnyCase.cons_left.mp hcase
    obtain ⟨b, u, hspells, hrest, rfl⟩ := AnyCase.cons_left.mp htail
    obtain rfl : c = 0x30 := by simpa [spells] using hzero
    obtain ⟨hpos, hbase⟩ := base_of_mark hmem
    obtain ⟨happend, hsep⟩ := appendDigits_of_spaced hbase hpos hspaced hrest hmax
    rw [spells_mark hmem] at hspells
    cases u with
    | nil =>
      cases hrest
      cases hspaced
      exact absurd rfl hne
    | cons d u =>
      obtain ⟨hsplit, hwell⟩ := split_marked (d := d) hmem hspells u
      rw [hsplit, hwell]
      exact ⟨by simp, happend, hsep⟩

theorem literal_eq_ok_iff {max n : Nat} {s : Bytes} :
    literal max s = .ok n ↔ n ≤ max ∧ ∃ t, Magnitude t n ∧ AnyCase t s := by
  constructor
  · exact magnitude_of_literal
  · rintro ⟨hmax, t, ht, hcase⟩
    exact literal_of_magnitude ht hcase hmax

theorem ok_mapError_iff {ε ε' α : Type} {x : Except ε α} {f : ε → ε'} {a : α} :
    x.mapError f = .ok a ↔ x = .ok a := by
  cases x with
  | error e => simp [Except.mapError]
  | ok b => simp [Except.mapError]

theorem readNatural_eq_ok_iff {bits n : Nat} {s : Bytes} :
    readNatural bits s = .ok n ↔ n < 2 ^ bits ∧ ∃ t, Magnitude t n ∧ AnyCase t s := by
  rw [readNatural, ok_mapError_iff, literal_eq_ok_iff, Nat.one_shiftLeft, Nat.le_sub_one_iff_lt]
  exact Nat.two_pow_pos bits

private theorem exists_digit_of_magnitude {t s : Bytes} {n : Nat} (h : Magnitude t n)
    (hcase : AnyCase t s) : ∃ c u d, s = c :: u ∧ digitIn? 10 c = some d := by
  have hzero {c : UInt8} (hc : spells 0x30 c = true) : digitIn? 10 c = some 0 :=
    (digitIn_eq_some_iff (by decide)).mpr ⟨by decide, hc⟩
  cases h with
  | @decimal d ds t _ hd _ =>
    obtain ⟨c, u, hspells, -, rfl⟩ := AnyCase.cons_left.mp hcase
    exact ⟨c, u, d, rfl, (digitIn_eq_some_iff (by decide)).mpr ⟨hd, hspells⟩⟩
  | octal =>
    obtain ⟨c, u, hspells, -, rfl⟩ := AnyCase.cons_left.mp hcase
    exact ⟨c, u, 0, rfl, hzero hspells⟩
  | marked =>
    obtain ⟨c, u, hspells, -, rfl⟩ := AnyCase.cons_left.mp hcase
    exact ⟨c, u, 0, rfl, hzero hspells⟩

private theorem unsigned_of_magnitude {t s : Bytes} {n : Nat} (h : Magnitude t n)
    (hcase : AnyCase t s) : dropSign s = s ∧ isNegative s = false := by
  obtain ⟨c, u, d, rfl, hd⟩ := exists_digit_of_magnitude h hcase
  have hsign := unsigned_of_decimal hd
  refine ⟨by rw [dropSign, hsign, if_neg (by decide)], ?_⟩
  rw [isNegative, List.head?_cons]
  simpa using (Bool.or_eq_false_iff.mp hsign).2

private theorem exists_integerText_iff {s : Bytes} {i : Int} :
    (∃ t, IntegerText t i ∧ AnyCase t s) ↔ ∃ n t, Magnitude t n ∧ AnyCase t (dropSign s) ∧
      i = if isNegative s then -(n : Int) else n := by
  constructor
  · rintro ⟨t, ht, hcase⟩
    cases ht with
    | @plain t n h =>
      obtain ⟨hdrop, hneg⟩ := unsigned_of_magnitude h hcase
      exact ⟨n, t, h, by rwa [hdrop], by rw [hneg]; rfl⟩
    | @plus t n h =>
      obtain ⟨c, u, hspells, hrest, rfl⟩ := AnyCase.cons_left.mp hcase
      obtain rfl : c = 0x2b := by simpa [spells] using hspells
      exact ⟨n, t, h, hrest, rfl⟩
    | @minus t n h =>
      obtain ⟨c, u, hspells, hrest, rfl⟩ := AnyCase.cons_left.mp hcase
      obtain rfl : c = 0x2d := by simpa [spells] using hspells
      exact ⟨n, t, h, hrest, rfl⟩
  · rintro ⟨n, t, h, hcase, rfl⟩
    cases s with
    | nil => exact ⟨t, .plain h, hcase⟩
    | cons c s =>
      by_cases hplus : c = 0x2b
      · subst hplus
        exact ⟨0x2b :: t, .plus h, .cons rfl hcase⟩
      · by_cases hminus : c = 0x2d
        · subst hminus
          exact ⟨0x2d :: t, .minus h, .cons rfl hcase⟩
        · have hdrop : dropSign (c :: s) = c :: s := by simp [dropSign, hplus, hminus]
          have hneg : isNegative (c :: s) = false := by simp [isNegative, hminus]
          rw [hdrop] at hcase
          rw [hneg]
          exact ⟨t, .plain h, hcase⟩

private theorem signedLiteral_eq_ok_iff {bits : Nat} {s : Bytes} {i : Int} :
    signedLiteral bits s = .ok i ↔ ∃ n, literal ((1 <<< bits) - 1) (dropSign s) = .ok n ∧
      (if isNegative s then n ≤ 1 <<< (bits - 1) else n < 1 <<< (bits - 1)) ∧
      i = if isNegative s then -(n : Int) else n := by
  rw [signedLiteral]
  cases literal ((1 <<< bits) - 1) (dropSign s) with
  | error f => simp
  | ok n =>
    cases isNegative s with
    | true =>
      by_cases h : 1 <<< (bits - 1) < n
      · simp [h, Nat.not_le.mpr h]
      · simp [h, Nat.not_lt.mp h, eq_comm]
    | false =>
      by_cases h : 1 <<< (bits - 1) ≤ n
      · simp [h, Nat.not_lt.mpr h]
      · simp [h, Nat.not_le.mp h, eq_comm]

/-- The integers are the signed texts of the grammar in any case whose value has the given bits. -/
theorem readInteger_eq_ok_iff {bits : Nat} (hbits : 0 < bits) {s : Bytes} {i : Int} :
    readInteger bits s = .ok i ↔
      (-2 ^ (bits - 1) ≤ i ∧ i < 2 ^ (bits - 1)) ∧ ∃ t, IntegerText t i ∧ AnyCase t s := by
  have hpow : 2 ^ bits = 2 * 2 ^ (bits - 1) := by
    obtain ⟨k, rfl⟩ := Nat.exists_eq_succ_of_ne_zero (Nat.ne_of_gt hbits)
    rw [Nat.succ_sub_one, Nat.pow_succ, Nat.mul_comm]
  have hpos := Nat.two_pow_pos (bits - 1)
  have hcast : (2 : Int) ^ (bits - 1) = ((2 ^ (bits - 1) : Nat) : Int) := by
    rw [Int.natCast_pow]
    rfl
  rw [readInteger, ok_mapError_iff, signedLiteral_eq_ok_iff, exists_integerText_iff, hcast,
    Nat.one_shiftLeft, Nat.one_shiftLeft]
  -- the magnitude has one bit more than the bounds ask for, so only the bounds count
  constructor
  · rintro ⟨n, hn, hbound, rfl⟩
    obtain ⟨-, t, ht, hcase⟩ := literal_eq_ok_iff.mp hn
    refine ⟨?_, n, t, ht, hcase, rfl⟩
    cases hneg : isNegative s with
    | true =>
      rw [hneg, if_pos rfl] at hbound
      rw [if_pos rfl]
      omega
    | false =>
      rw [hneg, if_neg (by decide)] at hbound
      rw [if_neg (by decide)]
      omega
  · rintro ⟨hbounds, n, t, ht, hcase, rfl⟩
    cases hneg : isNegative s with
    | true =>
      rw [hneg, if_pos rfl] at hbounds
      refine ⟨n, literal_eq_ok_iff.mpr ⟨?_, t, ht, hcase⟩, ?_, rfl⟩
      · omega
      · rw [if_pos rfl]
        omega
    | false =>
      rw [hneg, if_neg (by decide)] at hbounds
      refine ⟨n, literal_eq_ok_iff.mpr ⟨?_, t, ht, hcase⟩, ?_, rfl⟩
      · omega
      · rw [if_neg (by decide)]
        omega

private theorem foldl_digitByte {ds : List Nat} (h : ∀ d ∈ ds, d < 10) (n : Nat) :
    (ds.map digitByte).foldl (fun n c => n * 10 + (c.toNat - 0x30)) n = appended 10 n ds := by
  induction ds generalizing n with
  | nil => rfl
  | cons d ds ih =>
    rw [List.forall_mem_cons] at h
    have hd : (digitByte d).toNat - 0x30 = d := by
      rw [toNat_digitByte (Nat.lt_trans h.1 (by decide)), if_pos h.1]
      omega
    rw [List.map_cons, List.foldl_cons, hd, ih h.2, appended_cons]

theorem digitsValue_eq_some_iff {s : Bytes} {n : Nat} :
    digitsValue? s = some n ↔ Numeral s n := by
  rw [digitsValue?]
  constructor
  · intro h
    split at h
    · cases h
    next hs =>
      rw [Bool.or_eq_true, not_or, Bool.not_eq_true', Bool.not_eq_false, List.isEmpty_iff,
        List.all_eq_true] at hs
      obtain ⟨hne, hdigits⟩ := hs
      have hback : ∀ c ∈ s, digitByte (c.toNat - 0x30) = c ∧ c.toNat - 0x30 < 10 :=
        fun c hc => digitByte_of_isDigit (hdigits c hc)
      have hds : ∀ d ∈ s.map fun c => c.toNat - 0x30, d < 10 := by
        intro d hd
        obtain ⟨c, hc, rfl⟩ := List.mem_map.mp hd
        exact (hback c hc).2
      have htext : s = (s.map fun c => c.toNat - 0x30).map digitByte := by
        rw [List.map_map]
        refine (List.map_id s).symm.trans (List.map_congr_left fun c hc => ?_)
        exact (hback c hc).1.symm
      refine ⟨_, by simpa using hne, hds, htext, ?_⟩
      obtain rfl := Option.some.inj h
      rw [ofDigits, ← foldl_digitByte hds, ← htext]
  · rintro ⟨ds, hne, hds, rfl, rfl⟩
    have hdigits : (ds.map digitByte).all isDigit = true := by
      rw [List.all_eq_true]
      intro c hc
      obtain ⟨d, hd, rfl⟩ := List.mem_map.mp hc
      exact isDigit_digitByte (hds d hd)
    have hempty : (ds.map digitByte).isEmpty = false := by simpa using hne
    rw [hdigits, hempty, if_neg (by decide), foldl_digitByte hds, ofDigits]

end ScalableVector.Number
