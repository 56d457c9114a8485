import ScalableVector.Proofs.FrontEnd
import ScalableVector.Proofs.LetterCase
import ScalableVector.Proofs.RegisterText

/-!
# Operands in other letter case

Numbers and operands are read alike from texts that differ in the case of ASCII letters. Truth
values are the exception: they have few spellings, among them those all in lower case and all in
capitals.
-/

namespace ScalableVector

open Text (Recases lowerByte upperByte)

namespace Number

private theorem readScientific_of_ne {c : UInt8} (hc : c ≠ 0x30) (s : Bytes) :
    readScientific? (c :: s) = readDecimal? (c :: s) := by
  rw [readScientific?.eq_def]
  split
  next heq => exact absurd (List.cons.inj heq).1 hc
  next => rfl

section
variable {f : UInt8 → UInt8} (hf : Recases f)
include hf

private theorem isDigit_apply (c : UInt8) : isDigit (f c) = isDigit c :=
  hf.apply (by decide) c

private theorem isMark_apply (mark c : UInt8) : isMark mark (f c) = isMark mark c := by
  have h : f c ||| 0x20 = c ||| 0x20 := hf.apply (p := (· ||| 0x20)) (by decide) c
  rw [isMark, isMark, h]

private theorem digitIn_apply (base : Nat) (c : UInt8) : digitIn? base (f c) = digitIn? base c := by
  have h : digitValue? (f c) = digitValue? c := hf.apply (by decide) c
  rw [digitIn?, digitIn?, h]

private theorem beq_apply {m : UInt8} (hm : isLetter m = false) (c : UInt8) :
    (f c == m) = (c == m) := by
  rw [Bool.eq_iff_iff, beq_iff_eq, beq_iff_eq, hf.eq_iff hm]

private theorem of_isDigit {c : UInt8} (h : isDigit c = true) : f c = c := by
  apply hf.of_not_isLetter
  cases hc : isLetter c with
  | false => rfl
  | true =>
    have hdigit := Text.forall_letter (p := fun c => !isDigit c) (by decide) hc
    rw [h] at hdigit
    cases hdigit

private theorem dropSign_map (s : Bytes) : dropSign (s.map f) = (dropSign s).map f := by
  cases s with
  | nil => rfl
  | cons c s =>
    simp only [List.map_cons, dropSign, beq_apply hf (show isLetter 0x2b = false by decide),
      beq_apply hf (show isLetter 0x2d = false by decide)]
    split <;> rfl

private theorem isNegative_map (s : Bytes) : isNegative (s.map f) = isNegative s := by
  cases s with
  | nil => rfl
  | cons c s => exact beq_apply hf (show isLetter 0x2d = false by decide) c

private theorem contains_map {m : UInt8} (hm : isLetter m = false) (s : Bytes) :
    (s.map f).contains m = s.contains m := by
  induction s with
  | nil => rfl
  | cons c s ih =>
    rw [List.map_cons, List.contains_cons, List.contains_cons, ih, Bool.beq_comm,
      beq_apply hf hm, Bool.beq_comm]

private theorem appendDigits_map (base max : Nat) (separated : Bool) (n : Nat) (s : Bytes) :
    appendDigits base max separated n (s.map f) = appendDigits base max separated n s := by
  induction s generalizing n with
  | nil => rfl
  | cons c s ih =>
    simp only [List.map_cons, appendDigits, ih, digitIn_apply hf,
      beq_apply hf (show isLetter 0x5f = false by decide)]

private theorem separatedAfter_map (hex : Bool) (last : Preceding) (s : Bytes) :
    separatedAfter hex last (s.map f) = separatedAfter hex last s := by
  induction s generalizing last with
  | nil => rfl
  | cons c s ih =>
    simp only [List.map_cons, separatedAfter, ih, isDigit_apply hf, digitIn_apply hf,
      beq_apply hf (show isLetter 0x5f = false by decide)]

private theorem head_apply {c : UInt8} (hc : c ≠ 0x30) : f c ≠ 0x30 :=
  fun h => hc ((hf.eq_iff (by decide)).mp h)

private theorem wellSeparated_map (s : Bytes) : wellSeparated (s.map f) = wellSeparated s := by
  have hzero : f 0x30 = 0x30 := hf.of_not_isLetter (by decide)
  rw [wellSeparated, dropSign_map hf, wellSeparated]
  cases dropSign s with
  | nil => rfl
  | cons c t =>
    by_cases hc : c = 0x30
    · subst hc
      cases t with
      | nil => rw [List.map_cons, hzero, List.map_nil]
      | cons d t =>
        have hplain := separatedAfter_map hf false .start (0x30 :: d :: t)
        rw [List.map_cons, hzero, List.map_cons] at hplain ⊢
        simp only [isMark_apply hf, separatedAfter_map hf, hplain]
    · have hplain := separatedAfter_map hf false .start (c :: t)
      split
      next heq => exact absurd (List.cons.inj heq).1 (head_apply hf hc)
      next =>
        split
        next heq => exact absurd (List.cons.inj heq).1 hc
        next => exact hplain

private theorem splitBase_map (s : Bytes) :
    splitBase (s.map f) = ((splitBase s).1, (splitBase s).2.map f) := by
  have hzero : f 0x30 = 0x30 := hf.of_not_isLetter (by decide)
  match s with
  | [] => rfl
  | c :: t =>
    by_cases hc : c = 0x30
    · subst hc
      rw [List.map_cons, hzero]
      match t with
      | [] => rfl
      | [d] => rfl
      | d :: b :: u =>
        simp only [List.map_cons, splitBase, isMark_apply hf]
        split
        · rfl
        · split
          · rfl
          · split <;> rfl
    · rw [List.map_cons, splitBase_of_ne (head_apply hf hc), splitBase_of_ne hc, List.map_cons]

theorem literal_map (max : Nat) (s : Bytes) : literal max (s.map f) = literal max s := by
  rw [literal, literal, splitBase_map hf, appendDigits_map hf, wellSeparated_map hf,
    contains_map hf (by decide), List.isEmpty_map]

theorem signedLiteral_map (bits : Nat) (s : Bytes) :
    signedLiteral bits (s.map f) = signedLiteral bits s := by
  rw [signedLiteral, signedLiteral, dropSign_map hf, literal_map hf, isNegative_map hf]

theorem digitsValue_map (s : Bytes) : digitsValue? (s.map f) = digitsValue? s := by
  have hall : (s.map f).all isDigit = s.all isDigit := by
    rw [List.all_map]
    exact congrArg s.all (funext (isDigit_apply hf))
  cases hdigits : s.all isDigit with
  | true =>
    rw [List.all_eq_true] at hdigits
    rw [(List.map_congr_left fun c hc => of_isDigit hf (hdigits c hc)).trans (List.map_id s)]
  | false => simp [digitsValue?, hall, hdigits]

theorem signedDigits_map (s : Bytes) : signedDigits? (s.map f) = signedDigits? s := by
  rw [signedDigits?, signedDigits?, dropSign_map hf, digitsValue_map hf, isNegative_map hf]

private theorem readMantissa_map (base : Nat) (m : Mantissa) (s : Bytes) :
    readMantissa base m (s.map f) =
      ((readMantissa base m s).1, (readMantissa base m s).2.map f) := by
  induction s generalizing m with
  | nil => rfl
  | cons c s ih =>
    simp only [List.map_cons, readMantissa, beq_apply hf (show isLetter 0x5f = false by decide),
      beq_apply hf (show isLetter 0x2e = false by decide), digitIn_apply hf]
    split
    · exact ih m
    · split
      · split
        · rfl
        · exact ih _
      · split
        · exact ih _
        · rfl

private theorem readExponent_map (e : Nat) (s : Bytes) :
    readExponent e (s.map f) = ((readExponent e s).1, (readExponent e s).2.map f) := by
  induction s generalizing e with
  | nil => rfl
  | cons c s ih =>
    simp only [List.map_cons, readExponent, beq_apply hf (show isLetter 0x5f = false by decide),
      isDigit_apply hf]
    split
    · exact ih e
    · split
      next hdigit =>
        rw [of_isDigit hf hdigit]
        exact ih _
      · rfl

private theorem readSignedExponent_map (s : Bytes) :
    readSignedExponent? (s.map f) =
      (readSignedExponent? s).map fun result => (result.1, result.2.map f) := by
  rw [readSignedExponent?, dropSign_map hf, isNegative_map hf, readSignedExponent?]
  cases dropSign s with
  | nil => rfl
  | cons c t =>
    have hexponent := readExponent_map hf 0 (c :: t)
    rw [List.map_cons] at hexponent ⊢
    simp only [isDigit_apply hf, hexponent]
    split <;> rfl

private theorem exponent_map (mark c : UInt8) (t : Bytes) (g : Int → Scientific) :
    (do
      guard (isMark mark (f c) = true)
      let part ← readSignedExponent? (t.map f)
      guard (part.2.isEmpty = true)
      some (g part.1)) =
    (do
      guard (isMark mark c = true)
      let part ← readSignedExponent? t
      guard (part.2.isEmpty = true)
      some (g part.1)) := by
  rw [isMark_apply hf, readSignedExponent_map hf]
  cases readSignedExponent? t with
  | none => rfl
  | some part =>
    have hempty : (part.2.map f).isEmpty = part.2.isEmpty := List.isEmpty_map
    change (do
        guard (isMark mark c = true)
        guard ((part.2.map f).isEmpty = true)
        some (g part.1)) = _
    rw [hempty]
    rfl

private theorem readDecimal_map (s : Bytes) : readDecimal? (s.map f) = readDecimal? s := by
  rw [readDecimal?, readMantissa_map hf, readDecimal?]
  rcases readMantissa 10 ⟨0, 0, false, false⟩ s with ⟨m, _ | ⟨c, t⟩⟩
  · rfl
  · exact congrArg (guard (m.hasDigits = true) >>= fun _ => ·)
      (exponent_map hf 0x65 c t fun e => ⟨m.value, 10, e - m.places⟩)

private theorem readHexadecimal_map (s : Bytes) :
    readHexadecimal? (s.map f) = readHexadecimal? s := by
  rw [readHexadecimal?, readMantissa_map hf, readHexadecimal?]
  rcases readMantissa 16 ⟨0, 0, false, false⟩ s with ⟨m, _ | ⟨c, t⟩⟩
  · rfl
  · exact congrArg (guard (m.hasDigits = true) >>= fun _ => ·)
      (exponent_map hf 0x70 c t fun e => ⟨m.value, 2, e - 4 * m.places⟩)

private theorem readScientific_map (s : Bytes) :
    readScientific? (s.map f) = readScientific? s := by
  have hzero : f 0x30 = 0x30 := hf.of_not_isLetter (by decide)
  match s with
  | [] => rfl
  | c :: t =>
    have hdecimal := readDecimal_map hf (c :: t)
    by_cases hc : c = 0x30
    · subst hc
      rw [List.map_cons, hzero] at hdecimal ⊢
      match t with
      | [] => exact hdecimal
      | [d] => exact hdecimal
      | d :: b :: u =>
        have hhex := readHexadecimal_map hf (b :: u)
        simp only [List.map_cons] at hdecimal hhex ⊢
        rw [readScientific?, isMark_apply hf, hhex, hdecimal, readScientific?]
    · rw [List.map_cons, readScientific_of_ne (head_apply hf hc), readScientific_of_ne hc,
        ← List.map_cons, hdecimal]

theorem lowerLetters_map (s : Bytes) : lowerLetters (s.map f) = lowerLetters s := by
  rw [lowerLetters, List.map_map]
  exact List.map_congr_left fun b _ => hf b

theorem floatLiteral_map (s : Bytes) : floatLiteral (s.map f) = floatLiteral s := by
  have hword : wordValue? (s.map f) = wordValue? s := by
    rw [wordValue?, wordValue?, dropSign_map hf, lowerLetters_map hf, lowerLetters_map hf,
      isNegative_map hf]
  rw [floatLiteral, floatLiteral, hword, dropSign_map hf, readScientific_map hf,
    wellSeparated_map hf, contains_map hf (by decide), isNegative_map hf]

theorem readNatural_map {bits n : Nat} {s : Bytes} :
    readNatural bits (s.map f) = .ok n ↔ readNatural bits s = .ok n := by
  rw [readNatural, readNatural, ok_mapError_iff, ok_mapError_iff, literal_map hf]

theorem readInteger_map {bits : Nat} {i : Int} {s : Bytes} :
    readInteger bits (s.map f) = .ok i ↔ readInteger bits s = .ok i := by
  rw [readInteger, readInteger, ok_mapError_iff, ok_mapError_iff, signedLiteral_map hf]

theorem readFloat_map {x : Binary64} {s : Bytes} :
    readFloat (s.map f) = .ok x ↔ readFloat s = .ok x := by
  rw [readFloat, readFloat, ok_mapError_iff, ok_mapError_iff, floatLiteral_map hf]

end

end Number

namespace Reader

/-- The text of an address shows in its errors only. -/
private theorem vectorAddress_congr {s s' base offset : Bytes} {count : Nat} {imm : Int}
    {a : Address} (h : vectorAddress s count base offset imm = .ok a) :
    vectorAddress s' count base offset imm = .ok a := by
  rw [vectorAddress] at h ⊢
  split at h
  · split at h
    · cases h
    next hcheck =>
      rw [if_neg hcheck]
      exact h
  · cases h

variable {f : UInt8 → UInt8} (hf : Recases f)
include hf

private theorem dropMark_map {mark : UInt8} (hm : Number.isLetter mark = false) (s : Bytes) :
    dropMark mark (s.map f) = (dropMark mark s).map f := by
  cases s with
  | nil => rfl
  | cons c s =>
    simp only [List.map_cons, dropMark, hf.eq_iff hm]
    split <;> rfl

private theorem dropHash_map (s : Bytes) : dropHash (s.map f) = (dropHash s).map f :=
  dropMark_map hf (by decide) s

private theorem elementSize_map (s : Bytes) : elementSize (s.map f) = elementSize s := by
  rw [elementSize, elementSize, dropMark_map hf (by decide), hf.lower_map]

private theorem vector_map (s : Bytes) : vector (s.map f) = vector s := by
  rw [vector, vector, hf.lower_map]

private theorem predicate_map (view : Predication) (s : Bytes) :
    predicate view (s.map f) = predicate view s := by
  simp only [predicate, plainPredicate, hf.lower_map]

private theorem general_map (s : Bytes) : general (s.map f) = general s := by
  rw [general, general, hf.lower_map]

private theorem scalar_map (s : Bytes) : scalar (s.map f) = scalar s := by
  rw [scalar, scalar, hf.lower_map]

private theorem rotation_map {s : Bytes} {r : Rotation} (h : rotation s = .ok r) :
    rotation (s.map f) = .ok r := by
  rw [rotation] at h ⊢
  rw [dropHash_map hf, Number.signedDigits_map hf]
  split at h
  · exact h
  · cases h

private theorem pattern_map {s : Bytes} {p : Pattern} (h : pattern s = .ok p) :
    pattern (s.map f) = .ok p := by
  rw [pattern] at h ⊢
  rw [hf.lower_map, dropHash_map hf]
  split at h
  · exact h
  · split at h
    next n hn =>
      rw [(Number.readNatural_map hf).mpr hn]
      exact h
    next => cases h

private theorem form_map {s : Bytes} {o : Form} (h : form s = .ok o) : form (s.map f) = .ok o := by
  rw [form] at h ⊢
  rw [hf.lower_map]
  split at h
  · exact h
  · cases h

private theorem insideBrackets_map {s t : Bytes} (h : insideBrackets? s = some t) :
    insideBrackets? (s.map f) = some (t.map f) := by
  have hopen : f 0x5b = 0x5b := hf.of_not_isLetter (by decide)
  have hclose : f 0x5d = 0x5d := hf.of_not_isLetter (by decide)
  rw [eq_of_insideBrackets h, List.map_cons, List.map_append, List.map_singleton, hopen, hclose]
  simp [insideBrackets?]

private theorem addressOffset_map {s s' : Bytes} {part : Option Bytes} {result : Int × Bytes}
    (h : addressOffset s part = .ok result) :
    addressOffset s' (part.map (List.map f)) = .ok result := by
  cases part with
  | none => exact h
  | some part =>
    have hhash : (part.map f).head? = some 0x23 ↔ part.head? = some 0x23 := by
      cases part with
      | nil => rfl
      | cons c t =>
        rw [List.map_cons, List.head?_cons, List.head?_cons, Option.some.injEq, Option.some.injEq,
          hf.eq_iff (by decide)]
    rw [Option.map_some, addressOffset]
    rw [addressOffset] at h
    split at h
    next hhead =>
      rw [if_pos (hhash.mpr hhead), dropHash_map hf]
      split at h
      next imm himm =>
        rw [(Number.readInteger_map hf).mpr himm]
        exact h
      next => cases h
    next hhead =>
      rw [if_neg (mt hhash.mp hhead), hf.lower_map]
      exact h

private theorem addressOfParts_map {s s' base : Bytes} {rest : List Bytes} {a : Address}
    (h : addressOfParts s base rest = .ok a) :
    addressOfParts s' (base.map f) (rest.map (List.map f)) = .ok a := by
  obtain ⟨⟨imm, offset⟩, hoffset, h⟩ := ok_bind_iff.mp h
  have hthird : (rest.map (List.map f))[1]?.map Text.lower = rest[1]?.map Text.lower := by
    rw [List.getElem?_map, Option.map_map]
    exact congrArg (Option.map · rest[1]?) (funext hf.lower_map)
  have hgeneral : generalAddress (base.map f) offset imm = generalAddress base offset imm := by
    rw [generalAddress, general_map hf, generalAddress]
  refine ok_bind_iff.mpr ⟨(imm, offset), ?_, ?_⟩
  · rw [List.head?_map]
    exact addressOffset_map hf hoffset
  · dsimp only at h ⊢
    rw [List.length_map, hthird, hf.lower_map, hgeneral]
    split at h
    · cases h
    next hcheck =>
      rw [if_neg hcheck]
      split at h
      next hhead =>
        rw [if_pos hhead]
        exact vectorAddress_congr h
      next hhead =>
        rw [if_neg hhead]
        exact h

private theorem address_map {s : Bytes} {a : Address} (h : address s = .ok a) :
    address (s.map f) = .ok a := by
  rw [address] at h ⊢
  cases ht : insideBrackets? s with
  | none =>
    rw [ht] at h
    cases h
  | some t =>
    rw [insideBrackets_map hf ht, Option.map_some, hf.parts_map]
    rw [ht, Option.map_some] at h
    cases hparts : Text.parts t with
    | nil =>
      rw [hparts] at h
      cases h
    | cons base rest =>
      rw [hparts] at h
      rw [List.map_cons]
      dsimp only at h ⊢
      rw [List.length_map]
      split at h
      · cases h
      next hlen =>
        rw [if_neg hlen]
        exact addressOfParts_map hf h

end Reader

/-- The texts of truth values are truth values after the change too. -/
def KeepsTruth (f : UInt8 → UInt8) : Prop :=
  ∀ entry ∈ Number.truthTexts,
    (Number.readTruth ((Bytes.ofString entry.1).map f)).toOption = some entry.2

theorem keepsTruth_lowerByte : KeepsTruth lowerByte := by
  unfold KeepsTruth
  decide +kernel

theorem keepsTruth_upperByte : KeepsTruth upperByte := by
  unfold KeepsTruth
  decide +kernel

theorem KeepsTruth.readTruth_map {f : UInt8 → UInt8} (h : KeepsTruth f) {s : Bytes} {b : Bool}
    (hb : Number.readTruth s = .ok b) : Number.readTruth (s.map f) = .ok b := by
  rw [Number.readTruth] at hb
  split at hb
  next entry hentry =>
    cases hb
    have hkeeps := h entry (List.mem_of_find?_eq_some hentry)
    have hs := List.find?_some hentry
    rw [eq_of_beq hs] at hkeeps
    cases htruth : Number.readTruth (s.map f) with
    | error e =>
      rw [htruth] at hkeeps
      cases hkeeps
    | ok b =>
      rw [htruth] at hkeeps
      rw [Option.some.inj hkeeps]
  next => cases hb

theorem Operand.read_map {f : UInt8 → UInt8} (hf : Recases f) (htruth : KeepsTruth f)
    {kind : OperandKind} {s : Bytes} {o : Operand} (h : Operand.read kind s = .ok o) :
    Operand.read kind (s.map f) = .ok o := by
  cases kind with
  | element => rwa [Operand.read, Reader.elementSize_map hf]
  | vector => rwa [Operand.read, Reader.vector_map hf]
  | predicate view => rwa [Operand.read, Reader.predicate_map hf]
  | scalar => rwa [Operand.read, Reader.scalar_map hf]
  | general => rwa [Operand.read, Reader.general_map hf]
  | rotation =>
    obtain ⟨r, hr, rfl⟩ := ok_map_iff.mp h
    exact ok_map_iff.mpr ⟨r, Reader.rotation_map hf hr, rfl⟩
  | pattern =>
    obtain ⟨p, hp, rfl⟩ := ok_map_iff.mp h
    exact ok_map_iff.mpr ⟨p, Reader.pattern_map hf hp, rfl⟩
  | form =>
    obtain ⟨v, hv, rfl⟩ := ok_map_iff.mp h
    exact ok_map_iff.mpr ⟨v, Reader.form_map hf hv, rfl⟩
  | address =>
    obtain ⟨a, ha, rfl⟩ := ok_map_iff.mp h
    exact ok_map_iff.mpr ⟨a, Reader.address_map hf ha, rfl⟩
  | int32 | int64 =>
    obtain ⟨i, hi, rfl⟩ := ok_map_iff.mp h
    refine ok_map_iff.mpr ⟨i, ?_, rfl⟩
    rw [Reader.integer, Number.ok_mapError_iff] at hi ⊢
    rwa [Reader.dropHash_map hf, Number.readInteger_map hf]
  | uint32 =>
    obtain ⟨n, hn, rfl⟩ := ok_map_iff.mp h
    refine ok_map_iff.mpr ⟨n, ?_, rfl⟩
    rw [Number.ok_mapError_iff] at hn ⊢
    rwa [Reader.dropHash_map hf, Number.readNatural_map hf]
  | float =>
    obtain ⟨x, hx, rfl⟩ := ok_map_iff.mp h
    refine ok_map_iff.mpr ⟨x, ?_, rfl⟩
    rw [Number.ok_mapError_iff] at hx ⊢
    rwa [Reader.dropHash_map hf, Number.readFloat_map hf]
  | flag =>
    obtain ⟨b, hb, rfl⟩ := ok_map_iff.mp h
    refine ok_map_iff.mpr ⟨b, ?_, rfl⟩
    rw [Number.ok_mapError_iff] at hb ⊢
    exact htruth.readTruth_map hb

namespace Line

variable {f : UInt8 → UInt8} (hf : Recases f) (htruth : KeepsTruth f)
include hf htruth

theorem Reads.map {kinds : List OperandKind} {texts : List Bytes} {ops : List Operand}
    (h : Reads kinds texts ops) : Reads kinds (texts.map (List.map f)) ops := by
  induction h with
  | nil => exact .nil
  | cons head _ ih => exact .cons (Operand.read_map hf htruth head) ih

/-- A line that is accepted is accepted in other letter case, with the same call. -/
theorem parse_map {line : Bytes} {result : Option Call} (h : parse line = .ok result) :
    parse (line.map f) = .ok result := by
  rw [parse_eq_ok_iff] at h ⊢
  rw [dropComment_map hf, hf.trim_map, List.map_eq_nil_iff, ne_eq, List.map_eq_nil_iff]
  refine h.imp_right fun ⟨hne, c, hc, hresult⟩ => ⟨hne, c, ?_, hresult⟩
  rw [call_eq_ok_iff] at hc ⊢
  rw [name_map hf, hf.lower_map, operands_map hf]
  exact ⟨hc.1, hc.2.map hf htruth⟩

end Line

end ScalableVector
