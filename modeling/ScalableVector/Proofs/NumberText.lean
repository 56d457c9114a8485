import ScalableVector.Number.Float
import ScalableVector.Proofs.Glyphs

/-!
# Bytes of number texts

Every text that is read as a number is made of digits, letters, underscores, signs and points.
-/

namespace ScalableVector.Number

def isNumberByte (c : UInt8) : Bool :=
  isDigit c || isLetter c || c == 0x5f || c == 0x2b || c == 0x2d || c == 0x2e

def Numeric (s : Bytes) : Prop := ∀ c ∈ s, isNumberByte c = true

private theorem isNumberByte_below (c : UInt8) :
    (!isNumberByte c || decide (c.toNat < 0x80)) = true := by
  revert c
  exact Text.forall_byte (by decide +kernel)

theorem Numeric.ascii {s : Bytes} (h : Numeric s) {c : UInt8} (hc : c ∈ s) : c.toNat < 0x80 := by
  have hbelow := isNumberByte_below c
  rw [h c hc] at hbelow
  exact of_decide_eq_true hbelow

private theorem isNumberByte_of_isDigit {c : UInt8} (h : isDigit c = true) :
    isNumberByte c = true := by
  rw [isNumberByte, h]
  rfl

private theorem isNumberByte_of_isLetter {c : UInt8} (h : isLetter c = true) :
    isNumberByte c = true := by
  rw [isNumberByte, h, Bool.or_true]
  rfl

private theorem isNumberByte_of_digitIn {base d : Nat} {c : UInt8} (h : digitIn? base c = some d) :
    isNumberByte c = true := by
  rw [digitIn?, Option.filter_eq_some_iff, digitValue?] at h
  obtain ⟨h, -⟩ := h
  split at h
  next hd => exact isNumberByte_of_isDigit hd
  next =>
    split at h
    next hl => exact isNumberByte_of_isLetter hl
    next => cases h

theorem numeric_nil : Numeric [] := fun _ h => by cases h

theorem numeric_cons {c : UInt8} {s : Bytes} (hc : isNumberByte c = true) (hs : Numeric s) :
    Numeric (c :: s) := List.forall_mem_cons.mpr ⟨hc, hs⟩

private theorem numeric_of_appendDigits {base max : Nat} {separated : Bool} {n m : Nat} {s : Bytes}
    (h : appendDigits base max separated n s = .ok m) : Numeric s := by
  induction s generalizing n with
  | nil => exact numeric_nil
  | cons c s ih =>
    rw [appendDigits] at h
    split at h
    next hc =>
      obtain ⟨-, hc⟩ := Bool.and_eq_true_iff.mp hc
      rw [eq_of_beq hc]
      exact numeric_cons (by decide) (ih h)
    next =>
      cases hd : digitIn? base c with
      | none => rw [hd] at h; cases h
      | some d =>
        rw [hd] at h
        dsimp only at h
        split at h
        · cases h
        · exact numeric_cons (isNumberByte_of_digitIn hd) (ih h)

private theorem isNumberByte_of_isMark {mark c : UInt8}
    (hmark : (decide (0x61 ≤ mark) && decide (mark ≤ 0x7a)) = true) (h : isMark mark c = true) :
    isNumberByte c = true := by
  have hc : c ||| 0x20 = mark := eq_of_beq h
  exact isNumberByte_of_isLetter (by rw [isLetter, hc, hmark])

private theorem numeric_of_splitBase {s : Bytes} (h : Numeric (splitBase s).2) : Numeric s := by
  rw [splitBase.eq_def] at h
  split at h
  next c d t =>
    refine numeric_cons (by decide) ?_
    split at h
    next hc => exact numeric_cons (isNumberByte_of_isMark (by decide) hc) h
    next =>
      split at h
      next hc => exact numeric_cons (isNumberByte_of_isMark (by decide) hc) h
      next =>
        split at h
        next hc => exact numeric_cons (isNumberByte_of_isMark (by decide) hc) h
        next => exact h
  next => exact numeric_cons (by decide) h
  next => exact h

theorem numeric_of_literal {max n : Nat} {s : Bytes} (h : literal max s = .ok n) : Numeric s := by
  rw [literal] at h
  split at h
  next => cases h
  next =>
    cases hd : appendDigits (splitBase s).1 max true 0 (splitBase s).2 with
    | error f => rw [hd] at h; cases h
    | ok m => exact numeric_of_splitBase (numeric_of_appendDigits hd)

theorem numeric_of_dropSign {s : Bytes} (h : Numeric (dropSign s)) : Numeric s := by
  cases s with
  | nil => exact numeric_nil
  | cons c s =>
    rw [dropSign] at h
    split at h
    next hc =>
      refine numeric_cons ?_ h
      rcases Bool.or_eq_true_iff.mp hc with hc | hc
      all_goals rw [eq_of_beq hc]; rfl
    next => exact h

theorem numeric_of_signedLiteral {bits : Nat} {i : Int} {s : Bytes}
    (h : signedLiteral bits s = .ok i) : Numeric s := by
  rw [signedLiteral] at h
  cases hn : literal ((1 <<< bits) - 1) (dropSign s) with
  | error f => rw [hn] at h; cases h
  | ok n => exact numeric_of_dropSign (numeric_of_literal hn)

theorem numeric_of_digitsValue {n : Nat} {s : Bytes} (h : digitsValue? s = some n) :
    Numeric s := by
  rw [digitsValue?] at h
  split at h
  next => cases h
  next hd =>
    rw [Bool.or_eq_true, not_or, Bool.not_eq_true', Bool.not_eq_false] at hd
    exact fun c hc => isNumberByte_of_isDigit (List.all_eq_true.mp hd.2 c hc)

theorem numeric_of_signedDigits {i : Int} {s : Bytes} (h : signedDigits? s = some i) :
    Numeric s := by
  cases hn : digitsValue? (dropSign s) with
  | none =>
    rw [signedDigits?, hn] at h
    cases h
  | some n => exact numeric_of_dropSign (numeric_of_digitsValue hn)

private theorem numeric_of_readMantissa (base : Nat) (m : Mantissa) {s : Bytes}
    (h : Numeric (readMantissa base m s).2) : Numeric s := by
  induction s generalizing m with
  | nil => exact numeric_nil
  | cons c s ih =>
    rw [readMantissa] at h
    split at h
    next hc => exact numeric_cons (by rw [eq_of_beq hc]; rfl) (ih _ h)
    next =>
      split at h
      next hc =>
        split at h
        next => exact h
        next => exact numeric_cons (by rw [eq_of_beq hc]; rfl) (ih _ h)
      next =>
        cases hd : digitIn? base c with
        | none => rw [hd] at h; exact h
        | some d =>
          rw [hd] at h
          exact numeric_cons (isNumberByte_of_digitIn hd) (ih _ h)

private theorem numeric_of_readExponent {e : Nat} {s : Bytes}
    (h : Numeric (readExponent e s).2) : Numeric s := by
  induction s generalizing e with
  | nil => exact numeric_nil
  | cons c s ih =>
    rw [readExponent] at h
    split at h
    next hc => exact numeric_cons (by rw [eq_of_beq hc]; rfl) (ih h)
    next =>
      split at h
      next hc => exact numeric_cons (isNumberByte_of_isDigit hc) (ih h)
      next => exact h

private theorem numeric_of_readSignedExponent {s rest : Bytes} {e : Int}
    (h : readSignedExponent? s = some (e, rest)) (hrest : Numeric rest) : Numeric s := by
  rw [readSignedExponent?] at h
  refine numeric_of_dropSign ?_
  cases hs : dropSign s with
  | nil => exact numeric_nil
  | cons c t =>
    rw [hs] at h
    dsimp only at h
    split at h
    next =>
      obtain ⟨-, rfl⟩ := Prod.mk.inj (Option.some.inj h)
      exact numeric_of_readExponent hrest
    next => cases h

private theorem of_guard {p : Prop} [Decidable p] {α : Type} {y : Option α} {x : α}
    (h : (do guard p; y) = some x) : p ∧ y = some x := by
  by_cases hp : p
  · have hg : (guard p : Option Unit) = some () := if_pos hp
    rw [hg] at h
    exact ⟨hp, h⟩
  · have hg : (guard p : Option Unit) = none := if_neg hp
    rw [hg] at h
    cases h

/-- An exponent behind its mark takes the rest of a literal. -/
private theorem numeric_of_exponent (mark : UInt8) {c : UInt8} {t : Bytes} {x : Scientific}
    (hmark : (decide (0x61 ≤ mark) && decide (mark ≤ 0x7a)) = true) {f : Int × Bytes → Scientific}
    (h : (do
      guard (isMark mark c = true)
      let part ← readSignedExponent? t
      guard (part.2.isEmpty = true)
      some (f part)) = some x) : Numeric (c :: t) := by
  obtain ⟨hc, h⟩ := of_guard h
  obtain ⟨part, he, h⟩ := Option.bind_eq_some_iff.mp h
  obtain ⟨hrest, -⟩ := of_guard h
  have hnil : Numeric part.2 := by
    rw [List.isEmpty_iff.mp hrest]
    exact numeric_nil
  exact numeric_cons (isNumberByte_of_isMark hmark hc) (numeric_of_readSignedExponent he hnil)

private theorem numeric_of_readDecimal {s : Bytes} {x : Scientific} (h : readDecimal? s = some x) :
    Numeric s := by
  obtain ⟨-, h⟩ := of_guard h
  refine numeric_of_readMantissa 10 ⟨0, 0, false, false⟩ ?_
  cases hrest : (readMantissa 10 ⟨0, 0, false, false⟩ s).2 with
  | nil => exact numeric_nil
  | cons c t =>
    rw [hrest] at h
    dsimp only at h
    exact numeric_of_exponent 0x65 (by decide) h

private theorem numeric_of_readHexadecimal {s : Bytes} {x : Scientific}
    (h : readHexadecimal? s = some x) : Numeric s := by
  obtain ⟨-, h⟩ := of_guard h
  refine numeric_of_readMantissa 16 ⟨0, 0, false, false⟩ ?_
  cases hrest : (readMantissa 16 ⟨0, 0, false, false⟩ s).2 with
  | nil => exact numeric_nil
  | cons c t =>
    rw [hrest] at h
    dsimp only at h
    exact numeric_of_exponent 0x70 (by decide) h

private theorem numeric_of_readScientific {s : Bytes} {x : Scientific}
    (h : readScientific? s = some x) : Numeric s := by
  rw [readScientific?.eq_def] at h
  split at h
  next c d t =>
    split at h
    next hc =>
      exact numeric_cons (by decide)
        (numeric_cons (isNumberByte_of_isMark (by decide) hc) (numeric_of_readHexadecimal h))
    next => exact numeric_of_readDecimal h
  next => exact numeric_of_readDecimal h

private theorem isNumberByte_of_lowered {c : UInt8}
    (h : isNumberByte (if isLetter c then c ||| 0x20 else c) = true) : isNumberByte c = true := by
  split at h
  next hc => exact isNumberByte_of_isLetter hc
  next => exact h

theorem numeric_of_lowerLetters {s t : Bytes} (h : lowerLetters s = t) (ht : Numeric t) :
    Numeric s := by
  intro c hc
  rw [← h, lowerLetters] at ht
  exact isNumberByte_of_lowered (ht _ (List.mem_map_of_mem hc))

private theorem numeric_of_wordValue {s : Bytes} {x : Binary64} (h : wordValue? s = some x) :
    Numeric s := by
  rw [wordValue?] at h
  split at h
  next hs => exact numeric_of_lowerLetters hs (by unfold Numeric; decide +kernel)
  next =>
    split at h
    next hs =>
      refine numeric_of_dropSign ?_
      rcases hs with hs | hs
      all_goals exact numeric_of_lowerLetters hs (by unfold Numeric; decide +kernel)
    next => cases h

theorem numeric_of_floatLiteral {s : Bytes} {x : Binary64} (h : floatLiteral s = .ok x) :
    Numeric s := by
  rw [floatLiteral] at h
  cases hw : wordValue? s with
  | some y => exact numeric_of_wordValue hw
  | none =>
    rw [hw] at h
    cases hx : readScientific? (dropSign s) with
    | none => rw [hx] at h; cases h
    | some y => exact numeric_of_dropSign (numeric_of_readScientific hx)

end ScalableVector.Number
