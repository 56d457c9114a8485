import ScalableVector.Emitter.Sink

/-!
# Hexadecimal texts

A reader for hexadecimal digits that takes no capital letters. The text of a number reads as the
number and has the least width that is asked for; zeros stand in front only up to that width.
-/

namespace ScalableVector

namespace Text

def hexDigit? (c : Char) : Option Nat := "0123456789abcdef".toList.idxOf? c

def hexFrom? (n : Nat) : List Char → Option Nat
  | [] => some n
  | c :: rest =>
    match hexDigit? c with
    | some d => hexFrom? (16 * n + d) rest
    | none => none

def readHex? (digits : List Char) : Option Nat :=
  if digits = [] then none else hexFrom? 0 digits

/-- The digits write the number with the given least width. -/
structure IsHex (width n : Nat) (digits : List Char) : Prop where
  reads : readHex? digits = some n
  width_le : width ≤ digits.length
  head_ne_zero : width < digits.length → digits.head? ≠ some '0'

private theorem hexDigit_digitChar :
    ∀ d ∈ List.range 16, hexDigit? d.digitChar = some d ∧ (d.digitChar = '0' → d = 0) := by
  decide

theorem hexFrom_append (n : Nat) (xs ys : List Char) :
    hexFrom? n (xs ++ ys) = (hexFrom? n xs).bind (hexFrom? · ys) := by
  induction xs generalizing n with
  | nil => rfl
  | cons c xs ih =>
    rw [List.cons_append, hexFrom?, hexFrom?]
    cases hexDigit? c with
    | none => rfl
    | some d => exact ih (16 * n + d)

theorem hexFrom_digitChar {d : Nat} (hd : d < 16) (n : Nat) :
    hexFrom? n [d.digitChar] = some (16 * n + d) := by
  rw [hexFrom?, (hexDigit_digitChar d (List.mem_range.mpr hd)).1]
  rfl

/-- The digits of a number read as the number, and start with a zero for zero only. -/
theorem hexFrom_toDigits (n : Nat) :
    hexFrom? 0 (Nat.toDigits 16 n) = some n ∧
      (0 < n → (Nat.toDigits 16 n).head? ≠ some '0') := by
  induction n using Nat.strongRecOn with
  | ind n ih =>
    by_cases hn : n < 16
    · rw [Nat.toDigits_of_lt_base hn, hexFrom_digitChar hn, Nat.mul_zero, Nat.zero_add]
      refine ⟨rfl, ?_⟩
      intro hpos hhead
      have hzero := (hexDigit_digitChar n (List.mem_range.mpr hn)).2 (Option.some.inj hhead)
      omega
    · obtain ⟨hvalue, hhead⟩ := ih (n / 16) (by omega)
      rw [Nat.toDigits_of_base_le (by decide) (Nat.not_lt.mp hn)]
      constructor
      · rw [hexFrom_append, hvalue, Option.bind_some, hexFrom_digitChar (Nat.mod_lt n (by decide)),
          Nat.div_add_mod]
      · intro _
        obtain ⟨first, rest, hcons⟩ :=
          List.exists_cons_of_length_pos (@Nat.length_toDigits_pos 16 (n / 16))
        rw [hcons] at hhead ⊢
        exact hhead (by omega)

theorem hexFrom_padZeros (width : Nat) (digits : List Char) :
    hexFrom? 0 (padZeros width digits) = hexFrom? 0 digits := by
  rw [padZeros]
  induction width - digits.length with
  | zero => rfl
  | succ k ih =>
    rw [List.replicate_succ, List.cons_append]
    exact ih

theorem length_padZeros (width : Nat) (digits : List Char) :
    (padZeros width digits).length = max width digits.length := by
  rw [padZeros, List.length_append, List.length_replicate]
  omega

theorem isHex_padZeros {width : Nat} (hwidth : 0 < width) (n : Nat) :
    IsHex width n (padZeros width (Nat.toDigits 16 n)) := by
  obtain ⟨hvalue, hhead⟩ := hexFrom_toDigits n
  have hlength := length_padZeros width (Nat.toDigits 16 n)
  refine ⟨?_, by omega, ?_⟩
  · have hne : padZeros width (Nat.toDigits 16 n) ≠ [] :=
      List.ne_nil_of_length_pos (by omega)
    rw [readHex?, if_neg hne, hexFrom_padZeros, hvalue]
  · intro hlong
    have hpad : width - (Nat.toDigits 16 n).length = 0 := by omega
    rw [padZeros, hpad, List.replicate_zero, List.nil_append]
    apply hhead
    -- zero has one digit, which is not more than the width
    rcases Nat.eq_zero_or_pos n with rfl | hpos
    · have hone : (Nat.toDigits 16 0).length = 1 := rfl
      omega
    · exact hpos

theorem isHex_hexadecimal {width : Nat} (hwidth : 0 < width) (n : Nat) :
    IsHex width n (hexadecimal width n).toList := by
  rw [hexadecimal, String.toList_ofList]
  exact isHex_padZeros hwidth n

theorem mem_of_hexFrom {n m : Nat} {digits : List Char} (h : hexFrom? n digits = some m) {c : Char}
    (hc : c ∈ digits) : c ∈ "0123456789abcdef".toList := by
  induction digits generalizing n with
  | nil => cases hc
  | cons d digits ih =>
    rw [hexFrom?] at h
    cases hd : hexDigit? d with
    | none =>
      rw [hd] at h
      cases h
    | some v =>
      rw [hd] at h
      rcases List.mem_cons.mp hc with rfl | hc
      · rw [← List.isSome_idxOf?, ← hexDigit?, hd]
        rfl
      · exact ih h hc

theorem IsHex.mem {width n : Nat} {digits : List Char} (h : IsHex width n digits) {c : Char}
    (hc : c ∈ digits) : c ∈ "0123456789abcdef".toList := by
  have hreads := h.reads
  rw [readHex?, if_neg (List.ne_nil_of_mem hc)] at hreads
  exact mem_of_hexFrom hreads hc

end Text

namespace Word

theorem isHex_text (w : Word) : Text.IsHex 8 w.toNat w.text.toList :=
  Text.isHex_hexadecimal (by decide) w.toNat

theorem length_text (w : Word) : w.text.toList.length = 8 := by
  have hdigits : (Nat.toDigits 16 w.toNat).length ≤ 8 := by
    rw [Nat.length_toDigits_le_iff (by decide) (by decide)]
    exact w.isLt
  rw [text, Text.hexadecimal, String.toList_ofList, Text.length_padZeros]
  omega

end Word

end ScalableVector
