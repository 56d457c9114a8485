import ScalableVector.Proofs.AddressText

/-!
# Written operands

Every operand that exists is read back from each text that it is written in: registers, rotations,
patterns, forms and addresses from their one text, element sizes from a suffix or a width, and
integers from their decimal digits with or without a mark.
-/

namespace ScalableVector

open Number (Numeral Magnitude IntegerText Spaced digitByte ofDigits appended)
open Text (AnyCase Padded)

inductive Address.Exists : Address → Prop
  | scalar {base offset : GeneralRegister} (hbase : base.isValid = true)
      (hoffset : offset.isValid = true) : Address.Exists (.ofScalar base offset)
  | immediate {base : GeneralRegister} (hbase : base.isValid = true) (i : Int32) :
      Address.Exists (.ofImmediate base i)
  | vectorOffset {base : GeneralRegister} {z : VectorRegister} (hbase : base.isValid = true)
      (hz : z.number.toNat < 32) : Address.Exists (.ofVectorOffset base z)
  | vectorBase {z : VectorRegister} (hz : z.number.toNat < 32) (i : Int32) :
      Address.Exists (.ofVectorBase z i)

/-- The operand names something that exists. -/
def Operand.Exists : Operand → Prop
  | .element s => s ∈ ElementSizes.every
  | .vector z => z.number.toNat < 32
  | .predicate _ p => p.number.toNat < 16
  | .scalar v => v.number.toNat < 32
  | .general r => r.isValid = true
  | .rotation r => r.quarters.toNat < 4
  | .address a => a.Exists
  | .pattern _ | .form _ | .int32 _ | .int64 _ | .uint32 _ | .float _ | .flag _ => True

/-- The texts in which an operand is written. Floating-point numbers and truth values have none. -/
def Operand.texts : Operand → List String
  | .element s => [s.suffix, "." ++ s.suffix, Text.decimal s.bits]
  | .vector z => [z.text]
  | .predicate view p => [p.text view]
  | .scalar v => [v.text]
  | .general r => [r.text]
  | .rotation r => [r.text]
  | .pattern p => [p.text]
  | .form f => [f.text]
  | .address a => [a.text]
  | .int32 i => [Text.signedDecimal i.toInt, "#" ++ Text.signedDecimal i.toInt]
  | .int64 i => [Text.signedDecimal i.toInt, "#" ++ Text.signedDecimal i.toInt]
  | .uint32 n => [Text.decimal n.toNat, "#" ++ Text.decimal n.toNat]
  | .float _ | .flag _ => []

theorem ofString_append (s t : String) :
    Bytes.ofString (s ++ t) = Bytes.ofString s ++ Bytes.ofString t := by
  rw [Bytes.ofString, String.toByteArray_append, ByteArray.toList_data_append]
  rfl

private theorem ofString_ofList (l : List Char) :
    Bytes.ofString (String.ofList l) = l.flatMap String.utf8EncodeChar := by
  rw [Bytes.ofString, String.toByteArray_ofList, List.utf8Encode, List.data_toByteArray]

namespace Number

private theorem encode_digitChar :
    ((List.range 10).all fun d => String.utf8EncodeChar d.digitChar == [digitByte d]) = true := by
  decide

private theorem flatMap_digitChar {ds : List Nat} (h : ∀ d ∈ ds, d < 10) :
    (ds.map Nat.digitChar).flatMap String.utf8EncodeChar = ds.map digitByte := by
  induction ds with
  | nil => rfl
  | cons d ds ih =>
    rw [List.forall_mem_cons] at h
    have hd := List.all_eq_true.mp encode_digitChar d (List.mem_range.mpr h.1)
    rw [List.map_cons, List.flatMap_cons, eq_of_beq hd, ih h.2]
    rfl

private theorem ofDigits_concat (base : Nat) (ds : List Nat) (d : Nat) :
    ofDigits base (ds ++ [d]) = ofDigits base ds * base + d := by
  rw [ofDigits, appended, List.foldl_append]
  rfl

private theorem exists_toDigits (n : Nat) :
    ∃ d ds, (∀ e ∈ d :: ds, e < 10) ∧ Nat.toDigits 10 n = (d :: ds).map Nat.digitChar ∧
      n = ofDigits 10 (d :: ds) ∧ (0 < n → 0 < d) := by
  induction n using Nat.strongRecOn with
  | ind n ih =>
    by_cases hn : n < 10
    · refine ⟨n, [], by simpa using hn, Nat.toDigits_of_lt_base hn, ?_, id⟩
      simp [ofDigits, appended]
    · -- the last digit is split off, and the first one stays what it is
      obtain ⟨d, ds, hds, htext, hvalue, hpos⟩ := ih (n / 10) (by omega)
      refine ⟨d, ds ++ [n % 10], ?_, ?_, ?_, fun _ => hpos (by omega)⟩
      · rw [← List.cons_append, List.forall_mem_append]
        exact ⟨hds, List.forall_mem_singleton.mpr (Nat.mod_lt n (by decide))⟩
      · rw [Nat.toDigits_of_base_le (by decide) (Nat.not_lt.mp hn), htext, ← List.cons_append,
          List.map_append, List.map_singleton]
      · rw [← List.cons_append, ofDigits_concat, ← hvalue]
        omega

private theorem exists_decimal (n : Nat) :
    ∃ d ds, (∀ e ∈ d :: ds, e < 10) ∧ Bytes.ofString (Text.decimal n) = (d :: ds).map digitByte ∧
      n = ofDigits 10 (d :: ds) ∧ (0 < n → 0 < d) := by
  obtain ⟨d, ds, hds, htext, hvalue, hpos⟩ := exists_toDigits n
  refine ⟨d, ds, hds, ?_, hvalue, hpos⟩
  rw [Text.decimal, ofString_ofList, htext, flatMap_digitChar hds]

theorem numeral_decimal (n : Nat) : Numeral (Bytes.ofString (Text.decimal n)) n := by
  obtain ⟨d, ds, hds, htext, hvalue, -⟩ := exists_decimal n
  exact ⟨d :: ds, by simp, hds, htext, hvalue⟩

private theorem spaced_digits {base : Nat} {ds : List Nat} (h : ∀ d ∈ ds, d < base) :
    Spaced base ds (ds.map digitByte) := by
  induction ds with
  | nil => exact .nil
  | cons d ds ih =>
    rw [List.forall_mem_cons] at h
    exact .digit h.1 (ih h.2)

theorem magnitude_decimal (n : Nat) : Magnitude (Bytes.ofString (Text.decimal n)) n := by
  obtain ⟨d, ds, hds, htext, hvalue, hpos⟩ := exists_decimal n
  rcases Nat.eq_zero_or_pos n with rfl | hn
  · -- a single zero is an octal literal without digits
    exact .octal .nil
  · rw [List.forall_mem_cons] at hds
    rw [htext, hvalue]
    exact .decimal (hpos hn) hds.1 (spaced_digits hds.2)

theorem integerText_signedDecimal (i : Int) :
    IntegerText (Bytes.ofString (Text.signedDecimal i)) i := by
  cases i with
  | ofNat n => exact .plain (magnitude_decimal n)
  | negSucc n =>
    have htext : Bytes.ofString (Text.signedDecimal (.negSucc n)) =
        0x2d :: Bytes.ofString (Text.decimal (n + 1)) := by
      rw [Text.signedDecimal, ofString_append]
      rfl
    rw [htext]
    exact .minus (magnitude_decimal (n + 1))

private theorem digitByte_ne_hash : ((List.range 10).all fun d => digitByte d != 0x23) = true := by
  decide

theorem dropHash_magnitude {t : Bytes} {n : Nat} (h : Magnitude t n) :
    Reader.dropHash t = t := by
  cases h with
  | decimal _ hd _ =>
    have hne := List.all_eq_true.mp digitByte_ne_hash _ (List.mem_range.mpr hd)
    rw [Reader.dropHash, Reader.dropMark, if_neg (bne_iff_ne.mp hne)]
  | octal | marked => rfl

theorem dropHash_integerText {t : Bytes} {i : Int} (h : IntegerText t i) :
    Reader.dropHash t = t := by
  cases h with
  | plain h => exact dropHash_magnitude h
  | plus | minus => rfl

theorem dropHash_of_mem {t : String} (h : Reader.dropHash (Bytes.ofString t) = Bytes.ofString t) :
    ∀ s ∈ [t, "#" ++ t], Reader.dropHash (Bytes.ofString s) = Bytes.ofString t := by
  have hmarked : Reader.dropHash (Bytes.ofString ("#" ++ t)) = Bytes.ofString t := by
    rw [ofString_append]
    rfl
  rw [List.forall_mem_cons]
  exact ⟨h, List.forall_mem_singleton.mpr hmarked⟩

end Number

section Register

open Reader

private theorem numbered_decimal {letter : UInt8} {limit : Nat} {n : UInt8}
    (h : n.toNat < limit) :
    Numbered letter limit (letter :: Bytes.ofString (Text.decimal n.toNat)) n :=
  ⟨_, Number.numeral_decimal n.toNat, h, rfl⟩

private theorem arranged_decimal {letter : UInt8} {limit : Nat} {n : UInt8}
    (h : n.toNat < limit) :
    Arranged letter limit (letter :: Bytes.ofString (Text.decimal n.toNat)) n :=
  ⟨_, [], numbered_decimal h, .inl rfl, (List.append_nil _).symm⟩

theorem VectorRegister.text_reads {z : VectorRegister} (h : z.number.toNat < 32) :
    VectorText (Bytes.ofString z.text) z := by
  rw [VectorRegister.text, ofString_append]
  exact arranged_decimal h

theorem PredicateRegister.text_reads {p : PredicateRegister} (h : p.number.toNat < 16)
    (view : Predication) : PredicateText view (Bytes.ofString (p.text view)) p := by
  rw [PredicateRegister.text, ofString_append, ofString_append]
  exact ⟨_, arranged_decimal h, rfl⟩

theorem ScalarRegister.text_reads {v : ScalarRegister} (h : v.number.toNat < 32) :
    ScalarText (Bytes.ofString v.text) v := by
  rw [ScalarRegister.text, ofString_append]
  exact ⟨0x76, by decide +kernel, numbered_decimal h⟩

/-- Other than the zero registers, a general register is told by its number and its width. -/
private theorem general_codes (b : UInt8) :
    (!decide (b < 64) || b == 31 || b == 63 ||
      decide ((b &&& 31).toNat < 31) && b == (if b < 32 then b &&& 31 else 32 + (b &&& 31))) =
      true := by
  revert b
  exact Text.forall_byte (by decide +kernel)

theorem GeneralRegister.text_reads {r : GeneralRegister} (h : r.isValid = true) :
    GeneralText (Bytes.ofString r.text) r := by
  rw [GeneralRegister.text, h]
  by_cases hxzr : r = xzr
  · subst hxzr
    exact .xzr
  · by_cases hwzr : r = wzr
    · subst hwzr
      exact .wzr
    · obtain ⟨b⟩ := r
      have hcode := general_codes b
      simp only [isValid] at h
      simp only [h, Bool.not_true, Bool.false_or, Bool.or_eq_true, beq_iff_eq, Bool.and_eq_true,
        decide_eq_true_eq] at hcode
      have hindex : index ⟨b⟩ = b &&& 31 := rfl
      rw [if_neg (by decide), if_neg hxzr, if_neg hwzr, ofString_append, hindex]
      rcases hcode with (rfl | rfl) | ⟨hlt, hb⟩
      · exact absurd rfl hxzr
      · exact absurd rfl hwzr
      · by_cases hwide : b < 32
        · rw [if_pos hwide] at hb
          have htext : Bytes.ofString (if is64 ⟨b⟩ = true then "x" else "w") = [0x78] := by
            rw [is64, decide_eq_true hwide]
            rfl
          have hr : (⟨b⟩ : GeneralRegister) = ⟨b &&& 31⟩ := congrArg mk hb
          rw [htext, List.singleton_append, hr]
          exact .x (numbered_decimal hlt)
        · rw [if_neg hwide] at hb
          have htext : Bytes.ofString (if is64 ⟨b⟩ = true then "x" else "w") = [0x77] := by
            rw [is64, decide_eq_false hwide]
            rfl
          have hr : (⟨b⟩ : GeneralRegister) = ⟨32 + (b &&& 31)⟩ := congrArg mk hb
          rw [htext, List.singleton_append, hr]
          exact .w (numbered_decimal hlt)

end Register

namespace Reader

private theorem padded_self (t : Bytes) : Padded t t :=
  ⟨[], [], Text.blank_nil, Text.blank_nil, by simp⟩

private theorem padded_blank (t : Bytes) : Padded t (0x20 :: t) :=
  ⟨[0x20], [], by unfold Text.Blank; decide, Text.blank_nil, by simp⟩

private theorem joined_eq_intercalate (t : Bytes) (ts : List Bytes) :
    Text.joined (t :: ts) = List.intercalate [0x2c] (t :: ts.map (0x20 :: ·)) := by
  induction ts generalizing t with
  | nil => rfl
  | cons u ts ih =>
    have hrest := ih u
    cases ts with
    | nil => simp [Text.joined, List.intercalate_cons_cons]
    | cons v ts =>
      rw [Text.joined, List.intercalate_cons_cons, ← Text.joined, hrest, List.map_cons,
        List.map_cons, List.intercalate_cons_cons, List.map_cons, List.intercalate_cons_cons,
        List.intercalate_cons_cons]
      simp

private theorem bracketed_joined (t : Bytes) (ts : List Bytes) :
    Bracketed (t :: ts) (0x5b :: (Text.joined (t :: ts) ++ [0x5d])) := by
  refine ⟨t :: ts, t :: ts.map (0x20 :: ·), List.forall₂_same.mpr fun u _ => .refl u, ?_, ?_⟩
  · refine .cons (padded_self t) (List.forall₂_map_right_iff.mpr (List.forall₂_same.mpr ?_))
    intro u _
    exact padded_blank u
  · rw [joined_eq_intercalate]

private theorem ofString_two (s t : String) :
    Bytes.ofString ("[" ++ s ++ ", " ++ t ++ "]") =
      0x5b :: (Text.joined [Bytes.ofString s, Bytes.ofString t] ++ [0x5d]) := by
  have hopen : Bytes.ofString "[" = [0x5b] := rfl
  have hcomma : Bytes.ofString ", " = [0x2c, 0x20] := rfl
  have hclose : Bytes.ofString "]" = [0x5d] := rfl
  simp [ofString_append, hopen, hcomma, hclose, Text.joined, List.intercalate_cons_cons]

private theorem ofString_immediate (s t : String) :
    Bytes.ofString ("[" ++ s ++ ", #" ++ t ++ "]") =
      0x5b :: (Text.joined [Bytes.ofString s, 0x23 :: Bytes.ofString t] ++ [0x5d]) := by
  have hopen : Bytes.ofString "[" = [0x5b] := rfl
  have hcomma : Bytes.ofString ", #" = [0x2c, 0x20, 0x23] := rfl
  have hclose : Bytes.ofString "]" = [0x5d] := rfl
  simp [ofString_append, hopen, hcomma, hclose, Text.joined, List.intercalate_cons_cons]

private theorem ofString_lengths (s t : String) :
    Bytes.ofString ("[" ++ s ++ ", #" ++ t ++ ", mul vl]") =
      0x5b :: (Text.joined [Bytes.ofString s, 0x23 :: Bytes.ofString t, Bytes.ofString "mul vl"] ++
        [0x5d]) := by
  have hopen : Bytes.ofString "[" = [0x5b] := rfl
  have hcomma : Bytes.ofString ", #" = [0x2c, 0x20, 0x23] := rfl
  have hclose : Bytes.ofString ", mul vl]" =
      0x2c :: 0x20 :: (Bytes.ofString "mul vl" ++ [0x5d]) := rfl
  simp [ofString_append, hopen, hcomma, hclose, Text.joined, List.intercalate_cons_cons]

theorem address_text {a : Address} (h : a.Exists) :
    address (Bytes.ofString a.text) = .ok a := by
  cases h with
  | @scalar base offset hbase hoffset =>
    have hform := AddressParts.register (GeneralRegister.text_reads hbase)
      (GeneralRegister.text_reads hoffset)
    refine address_of_bracketed (.inl hform) ?_
    have htext := ofString_two base.text offset.text
    exact htext ▸ bracketed_joined _ _
  | @immediate base hbase i =>
    have hform := AddressParts.lengths (GeneralRegister.text_reads hbase)
      (Number.integerText_signedDecimal i.toInt)
    refine address_of_bracketed (.inl hform) ?_
    have htext := ofString_lengths base.text (Text.signedDecimal i.toInt)
    exact htext ▸ bracketed_joined _ _
  | @vectorOffset base z hbase hz =>
    have hform := AddressParts.vectorOffset (GeneralRegister.text_reads hbase)
      (VectorRegister.text_reads hz)
    refine address_of_bracketed (.inl hform) ?_
    have htext := ofString_two base.text z.text
    exact htext ▸ bracketed_joined _ _
  | @vectorBase z hz i =>
    have hform := AddressParts.vectorImmediate (VectorRegister.text_reads hz)
      (Number.integerText_signedDecimal i.toInt)
    refine address_of_bracketed (.inl hform) ?_
    have htext := ofString_immediate z.text (Text.signedDecimal i.toInt)
    exact htext ▸ bracketed_joined _ _

private theorem rotation_text (b : UInt8) :
    (!decide (b.toNat < 4) ||
      decide (rotation (Bytes.ofString (Rotation.text ⟨b⟩)) = .ok ⟨b⟩)) = true := by
  revert b
  exact Text.forall_byte (by decide +kernel)

private theorem named_clear : ∀ entry ∈ Pattern.named,
    Text.Clear (Bytes.ofString entry.2) ∧ (Bytes.ofString entry.2).head? ≠ some 0x23 ∧
      pattern (Bytes.ofString entry.2) = .ok entry.1 := by
  decide +kernel

private theorem ofName_number (t : Bytes) : Pattern.ofName? (Text.lower (0x23 :: t)) = none := by
  rw [Pattern.ofName?, Option.map_eq_none_iff, List.find?_eq_none]
  intro entry hentry heq
  obtain ⟨hclear, hhead, -⟩ := named_clear entry hentry
  have hcase := (Text.lower_eq_iff hclear).mp (of_decide_eq_true heq).symm
  exact head_of_anyCase hcase hhead rfl

private theorem pattern_text (p : Pattern) : pattern (Bytes.ofString p.text) = .ok p := by
  rw [Pattern.text]
  cases hname : Pattern.named.lookup p with
  | some name =>
    obtain ⟨before, after, hnamed, -⟩ := List.lookup_eq_some_iff.mp hname
    have hmem : (p, name) ∈ Pattern.named := by
      rw [hnamed]
      simp
    exact (named_clear (p, name) hmem).2.2
  | none =>
    have htext : Bytes.ofString ("#" ++ Text.decimal p.code.toNat) =
        0x23 :: Bytes.ofString (Text.decimal p.code.toNat) := by
      rw [ofString_append]
      rfl
    have hread : Number.readNatural 8 (Bytes.ofString (Text.decimal p.code.toNat)) =
        .ok p.code.toNat := by
      rw [Number.readNatural_eq_ok_iff]
      exact ⟨p.code.toNat_lt, _, Number.magnitude_decimal _, .refl _⟩
    rw [Option.getD_none, htext, pattern, ofName_number]
    simp [dropHash, dropMark, hread]

private theorem form_text (f : Form) : form (Bytes.ofString f.text) = .ok f := by
  cases f <;> decide +kernel

private theorem elementSize_texts :
    ∀ s ∈ ElementSizes.every, ∀ t ∈ (Operand.element s).texts,
      elementSize (Bytes.ofString t) = .ok s := by
  decide +kernel

private theorem readInteger_text {bits : Nat} (hbits : 0 < bits) {i : Int}
    (hlow : -2 ^ (bits - 1) ≤ i) (hhigh : i < 2 ^ (bits - 1)) :
    ∀ t ∈ [Text.signedDecimal i, "#" ++ Text.signedDecimal i],
      integer bits (Bytes.ofString t) = .ok i := by
  intro t ht
  have htext := Number.integerText_signedDecimal i
  rw [integer, Number.dropHash_of_mem (Number.dropHash_integerText htext) t ht,
    Number.ok_mapError_iff, Number.readInteger_eq_ok_iff hbits]
  exact ⟨⟨hlow, hhigh⟩, _, htext, .refl _⟩

private theorem readNatural_text (n : UInt32) :
    ∀ t ∈ [Text.decimal n.toNat, "#" ++ Text.decimal n.toNat],
      Number.readNatural 32 (dropHash (Bytes.ofString t)) = .ok n.toNat := by
  intro t ht
  have htext := Number.magnitude_decimal n.toNat
  rw [Number.dropHash_of_mem (Number.dropHash_magnitude htext) t ht,
    Number.readNatural_eq_ok_iff]
  exact ⟨n.toNat_lt, _, htext, .refl _⟩

end Reader

namespace Operand

open Reader

/-- An operand that exists is read back from every text that it is written in. -/
theorem read_texts {o : Operand} (h : o.Exists) :
    ∀ t ∈ o.texts, Operand.read o.kind (Bytes.ofString t) = .ok o := by
  intro t ht
  cases o with
  | element s => exact ok_map_iff.mpr ⟨s, elementSize_texts s h t ht, rfl⟩
  | vector z =>
    obtain rfl := List.mem_singleton.mp ht
    have hread := vector_eq_ok_iff.mpr ⟨_, VectorRegister.text_reads h, .refl _⟩
    exact ok_map_iff.mpr ⟨z, hread, rfl⟩
  | predicate view p =>
    obtain rfl := List.mem_singleton.mp ht
    have hread := predicate_eq_ok_iff.mpr ⟨_, PredicateRegister.text_reads h view, .refl _⟩
    exact ok_map_iff.mpr ⟨p, hread, rfl⟩
  | scalar v =>
    obtain rfl := List.mem_singleton.mp ht
    have hread := scalar_eq_ok_iff.mpr ⟨_, ScalarRegister.text_reads h, .refl _⟩
    exact ok_map_iff.mpr ⟨v, hread, rfl⟩
  | general r =>
    obtain rfl := List.mem_singleton.mp ht
    have hread := general_eq_ok_iff.mpr ⟨_, GeneralRegister.text_reads h, .refl _⟩
    exact ok_map_iff.mpr ⟨r, hread, rfl⟩
  | rotation r =>
    obtain rfl := List.mem_singleton.mp ht
    have hlt : r.quarters.toNat < 4 := h
    have hread := rotation_text r.quarters
    rw [decide_eq_true hlt] at hread
    exact ok_map_iff.mpr ⟨r, of_decide_eq_true hread, rfl⟩
  | pattern p =>
    obtain rfl := List.mem_singleton.mp ht
    exact ok_map_iff.mpr ⟨p, pattern_text p, rfl⟩
  | form f =>
    obtain rfl := List.mem_singleton.mp ht
    exact ok_map_iff.mpr ⟨f, form_text f, rfl⟩
  | address a =>
    obtain rfl := List.mem_singleton.mp ht
    exact ok_map_iff.mpr ⟨a, address_text h, rfl⟩
  | int32 i =>
    have hread := readInteger_text (Nat.succ_pos 31) i.le_toInt i.toInt_lt t ht
    exact ok_map_iff.mpr ⟨i.toInt, hread, congrArg int32 i.ofInt_toInt⟩
  | int64 i =>
    have hread := readInteger_text (Nat.succ_pos 63) i.le_toInt i.toInt_lt t ht
    exact ok_map_iff.mpr ⟨i.toInt, hread, congrArg int64 i.ofInt_toInt⟩
  | uint32 n =>
    have hread := readNatural_text n t ht
    exact ok_map_iff.mpr
      ⟨n.toNat, Number.ok_mapError_iff.mpr hread, congrArg uint32 n.ofNat_toNat⟩
  | float | flag => cases ht

/-- The least immediate of an address keeps its sign and all of its digits. -/
theorem read_least_immediate :
    (Operand.address (.ofImmediate ⟨5⟩ (-2147483648))).Exists ∧
      (Operand.address (.ofImmediate ⟨5⟩ (-2147483648))).texts = ["[x5, #-2147483648, mul vl]"] ∧
      Operand.read .address (Bytes.ofString "[x5, #-2147483648, mul vl]") =
        .ok (.address (.ofImmediate ⟨5⟩ (-2147483648))) := by
  have hexists : (Operand.address (.ofImmediate ⟨5⟩ (-2147483648))).Exists := .immediate rfl _
  have htexts : (Operand.address (.ofImmediate ⟨5⟩ (-2147483648))).texts =
      ["[x5, #-2147483648, mul vl]"] := by decide +kernel
  refine ⟨hexists, htexts, ?_⟩
  exact read_texts hexists _ (by rw [htexts]; exact List.mem_singleton_self _)

end Operand

end ScalableVector
