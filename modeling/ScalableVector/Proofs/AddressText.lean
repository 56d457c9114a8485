import ScalableVector.Proofs.Pieces
import ScalableVector.Proofs.Readable
import ScalableVector.Proofs.RegisterText

/-!
# Texts of addresses

An address is written between brackets, as parts with commas between them and white space around
them. Seven forms are meant: a base alone, with a register, with an immediate, and with an immediate
that counts vector lengths; the base may be a general register or a vector. The reader accepts these
forms, and besides them three in which the second part is empty, which it takes for a missing one.
-/

namespace ScalableVector

open Number (IntegerText)
open Text (AnyCase Clear Padded)

/-- The parts of an address as it is meant to be written, in lower case. -/
inductive AddressParts : List Bytes → Address → Prop
  | base {t : Bytes} {r : GeneralRegister} (ht : GeneralText t r) :
      AddressParts [t] (.ofImmediate r 0)
  | register {t u : Bytes} {r x : GeneralRegister} (ht : GeneralText t r) (hu : GeneralText u x) :
      AddressParts [t, u] (.ofScalar r x)
  | immediate {t u : Bytes} {r : GeneralRegister} {i : Int32} (ht : GeneralText t r)
      (hu : IntegerText u i.toInt) : AddressParts [t, 0x23 :: u] (.ofImmediate r i)
  | lengths {t u : Bytes} {r : GeneralRegister} {i : Int32} (ht : GeneralText t r)
      (hu : IntegerText u i.toInt) :
      AddressParts [t, 0x23 :: u, Bytes.ofString "mul vl"] (.ofImmediate r i)
  | vectorOffset {t u : Bytes} {r : GeneralRegister} {z : VectorRegister} (ht : GeneralText t r)
      (hu : VectorText u z) : AddressParts [t, u] (.ofVectorOffset r z)
  | vectorBase {t : Bytes} {z : VectorRegister} (ht : VectorText t z) :
      AddressParts [t] (.ofVectorBase z 0)
  | vectorImmediate {t u : Bytes} {z : VectorRegister} {i : Int32} (ht : VectorText t z)
      (hu : IntegerText u i.toInt) : AddressParts [t, 0x23 :: u] (.ofVectorBase z i)

/-- The forms with an empty second part. -/
inductive GappedParts : List Bytes → Address → Prop
  | immediate {t : Bytes} {r : GeneralRegister} (ht : GeneralText t r) :
      GappedParts [t, []] (.ofImmediate r 0)
  | lengths {t : Bytes} {r : GeneralRegister} (ht : GeneralText t r) :
      GappedParts [t, [], Bytes.ofString "mul vl"] (.ofImmediate r 0)
  | vectorBase {t : Bytes} {z : VectorRegister} (ht : VectorText t z) :
      GappedParts [t, []] (.ofVectorBase z 0)

/-- The text writes the parts between brackets, with commas between them, white space around them
and letters in any case. -/
def Bracketed (parts : List Bytes) (s : Bytes) : Prop :=
  ∃ inks pieces, List.Forall₂ AnyCase parts inks ∧ List.Forall₂ Padded inks pieces ∧
    s = 0x5b :: (List.intercalate [0x2c] pieces ++ [0x5d])

theorem VectorText.head {t : Bytes} {z : VectorRegister} (h : VectorText t z) :
    t.head? = some 0x7a := by
  obtain ⟨u, suffix, ⟨digits, -, -, rfl⟩, -, rfl⟩ := h
  rfl

theorem VectorText.ne_nil {t : Bytes} {z : VectorRegister} (h : VectorText t z) : t ≠ [] := by
  rintro rfl
  cases h.head

theorem GeneralText.head {t : Bytes} {r : GeneralRegister} (h : GeneralText t r) :
    t.head? = some 0x73 ∨ t.head? = some 0x78 ∨ t.head? = some 0x77 := by
  cases h with
  | sp => exact .inl rfl
  | xzr => exact .inr (.inl rfl)
  | wsp | wzr => exact .inr (.inr rfl)
  | x h =>
    obtain ⟨digits, -, -, rfl⟩ := h
    exact .inr (.inl rfl)
  | w h =>
    obtain ⟨digits, -, -, rfl⟩ := h
    exact .inr (.inr rfl)

theorem GeneralText.ne_nil {t : Bytes} {r : GeneralRegister} (h : GeneralText t r) : t ≠ [] := by
  rintro rfl
  rcases h.head with h | h | h
  all_goals cases h

namespace Reader

private theorem clear_lengths : Clear (Bytes.ofString "mul vl") := by decide +kernel

private theorem spells_hash (c : UInt8) : (!Text.spells c 0x23 || c == 0x23) = true := by
  revert c
  exact Text.forall_byte (by decide +kernel)

theorem head_of_anyCase {t ink : Bytes} (h : AnyCase t ink) (ht : t.head? ≠ some 0x23) :
    ink.head? ≠ some 0x23 := by
  cases h with
  | nil => exact ht
  | @cons c b t ink hspells _ =>
    intro hb
    obtain rfl : b = 0x23 := Option.some.inj hb
    have hc := spells_hash c
    rw [hspells] at hc
    obtain rfl : c = 0x23 := by simpa using hc
    exact ht rfl

theorem readInteger_of_text {u v : Bytes} {i : Int32} (hu : IntegerText u i.toInt)
    (hcase : AnyCase u v) : Number.readInteger 32 v = .ok i.toInt := by
  rw [Number.readInteger_eq_ok_iff (by decide)]
  exact ⟨⟨i.le_toInt, i.toInt_lt⟩, u, hu, hcase⟩

private theorem exists_of_hash {u ink : Bytes} (h : AnyCase (0x23 :: u) ink) :
    ∃ v, AnyCase u v ∧ ink = 0x23 :: v := by
  obtain ⟨c, v, hc, hv, rfl⟩ := AnyCase.cons_left.mp h
  obtain rfl : c = 0x23 := by simpa [Text.spells] using hc
  exact ⟨v, hv, rfl⟩

private theorem addressOffset_immediate (s : Bytes) {u ink : Bytes} {i : Int32}
    (hu : IntegerText u i.toInt) (hcase : AnyCase (0x23 :: u) ink) :
    addressOffset s (some ink) = .ok (i.toInt, []) := by
  obtain ⟨v, hv, rfl⟩ := exists_of_hash hcase
  rw [addressOffset, List.head?_cons, if_pos rfl]
  simp only [dropHash, dropMark, if_true, readInteger_of_text hu hv]

private theorem addressOffset_text (s : Bytes) {t ink : Bytes} (ht : Clear t)
    (hhash : t.head? ≠ some 0x23) (hcase : AnyCase t ink) :
    addressOffset s (some ink) = .ok (0, t) := by
  rw [addressOffset, if_neg (head_of_anyCase hcase hhash), (Text.lower_eq_iff ht).mpr hcase]

private theorem addressOffset_cases {s part offset : Bytes} {imm : Int}
    (h : addressOffset s (some part) = .ok (imm, offset)) :
    (∃ u, IntegerText u (Int32.ofInt imm).toInt ∧ AnyCase (0x23 :: u) part ∧ offset = []) ∨
      imm = 0 ∧ offset = Text.lower part := by
  rw [addressOffset] at h
  split at h
  next hhead =>
    left
    cases part with
    | nil => cases hhead
    | cons c v =>
      obtain rfl : c = 0x23 := Option.some.inj hhead
      simp only [dropHash, dropMark, if_true] at h
      split at h
      next i hi =>
        obtain ⟨rfl, rfl⟩ := Prod.mk.inj (Except.ok.inj h)
        obtain ⟨⟨hlow, hhigh⟩, u, hu, hcase⟩ := (Number.readInteger_eq_ok_iff (by decide)).mp hi
        have hval : (Int32.ofInt i).toInt = i := Int32.toInt_ofInt_of_le hlow hhigh
        exact ⟨u, by rwa [hval], .cons rfl hcase, rfl⟩
      next => cases h
  next =>
    right
    obtain ⟨rfl, rfl⟩ := Prod.mk.inj (Except.ok.inj h)
    exact ⟨rfl, rfl⟩

private theorem vector_lower_iff {s : Bytes} {z : VectorRegister} :
    vector (Text.lower s) = .ok z ↔ ∃ t, VectorText t z ∧ AnyCase t s := by
  rw [vector_eq_ok_iff]
  refine exists_congr fun t => and_congr_right fun ht => ?_
  exact Text.anyCase_lower_iff (ht.clear rfl)

private theorem general_lower_iff {s : Bytes} {r : GeneralRegister} :
    general (Text.lower s) = .ok r ↔ ∃ t, GeneralText t r ∧ AnyCase t s := by
  rw [general_eq_ok_iff]
  refine exists_congr fun t => and_congr_right fun ht => ?_
  exact Text.anyCase_lower_iff ht.clear

private theorem addressOfParts_vector {s base : Bytes} {rest : List Bytes} {t : Bytes}
    {z : VectorRegister} (ht : VectorText t z) (hcase : AnyCase t base) {imm : Int}
    (hoffset : addressOffset s rest.head? = .ok (imm, [])) (hrest : rest.length < 2) :
    addressOfParts s base rest = .ok (.ofVectorBase z (Int32.ofInt imm)) := by
  have hlower : Text.lower base = t := (Text.lower_eq_iff (ht.clear rfl)).mpr hcase
  have hz : vector t = .ok z := vector_eq_ok_iff.mpr ⟨t, ht, AnyCase.refl t⟩
  rw [addressOfParts, hoffset]
  simp only [bind, Except.bind, Nat.ne_of_lt hrest, false_and, if_false, hlower, ht.head, if_true]
  rw [vectorAddress, hz]
  simp [Nat.ne_of_lt hrest]

private theorem addressOfParts_general {s base : Bytes} {rest : List Bytes} {t : Bytes}
    {r : GeneralRegister} (ht : GeneralText t r) (hcase : AnyCase t base) {imm : Int}
    {offset : Bytes} (hoffset : addressOffset s rest.head? = .ok (imm, offset))
    (hthird : rest.length = 2 →
      offset = [] ∧ rest[1]?.map Text.lower = some (Bytes.ofString "mul vl")) :
    addressOfParts s base rest = generalAddress base offset imm := by
  have hlower : Text.lower base = t := (Text.lower_eq_iff ht.clear).mpr hcase
  have hhead : t.head? ≠ some 0x7a := by
    rcases ht.head with h | h | h
    all_goals rw [h]; decide
  have hcheck : ¬(rest.length = 2 ∧
      (offset ≠ [] ∨ rest[1]?.map Text.lower ≠ some (Bytes.ofString "mul vl"))) := by
    rintro ⟨hlen, h | h⟩
    · exact h (hthird hlen).1
    · exact h (hthird hlen).2
  rw [addressOfParts, hoffset]
  simp only [bind, Except.bind, if_neg hcheck, hlower, if_neg hhead]

private theorem generalAddress_nil {base : Bytes} {r : GeneralRegister}
    (hr : general base = .ok r) (imm : Int) :
    generalAddress base [] imm = .ok (.ofImmediate r (Int32.ofInt imm)) := by
  rw [generalAddress, hr]
  rfl

private theorem generalAddress_vector {base u : Bytes} {r : GeneralRegister} {z : VectorRegister}
    (hr : general base = .ok r) (hu : VectorText u z) (imm : Int) :
    generalAddress base u imm = .ok (.ofVectorOffset r z) := by
  have hz : vector u = .ok z := vector_eq_ok_iff.mpr ⟨u, hu, AnyCase.refl u⟩
  rw [generalAddress, hr, hz]
  simp only [bind, Except.bind, if_neg hu.ne_nil, hu.head, if_true]
  rfl

private theorem generalAddress_general {base u : Bytes} {r x : GeneralRegister}
    (hr : general base = .ok r) (hu : GeneralText u x) (imm : Int) :
    generalAddress base u imm = .ok (.ofScalar r x) := by
  have hx : general u = .ok x := general_eq_ok_iff.mpr ⟨u, hu, AnyCase.refl u⟩
  have hhead : u.head? ≠ some 0x7a := by
    rcases hu.head with h | h | h
    all_goals rw [h]; decide
  rw [generalAddress, hr, hx]
  simp only [bind, Except.bind, if_neg hu.ne_nil, if_neg hhead]
  rfl

private theorem lower_lengths {ink : Bytes} (h : AnyCase (Bytes.ofString "mul vl") ink) :
    Text.lower ink = Bytes.ofString "mul vl" := (Text.lower_eq_iff clear_lengths).mpr h

private theorem addressOfParts_of_parts (s : Bytes) {parts rest : List Bytes} {base : Bytes}
    {a : Address} (h : AddressParts parts a ∨ GappedParts parts a)
    (hcase : List.Forall₂ AnyCase parts (base :: rest)) :
    rest.length ≤ 2 ∧ addressOfParts s base rest = .ok a := by
  have hhash {t : Bytes} {r : GeneralRegister} (ht : GeneralText t r) : t.head? ≠ some 0x23 := by
    rcases ht.head with h | h | h
    all_goals rw [h]; decide
  have hread {t ink : Bytes} {r : GeneralRegister} (ht : GeneralText t r) (h : AnyCase t ink) :
      general ink = .ok r := general_eq_ok_iff.mpr ⟨t, ht, h⟩
  have hgap {ink : Bytes} (h : AnyCase [] ink) : addressOffset s (some ink) = .ok (0, []) :=
    addressOffset_text s (by decide) (by decide) h
  rcases h with h | h
  · cases h with
    | base ht =>
      rcases hcase with _ | ⟨hbase, _ | _⟩
      refine ⟨by simp, ?_⟩
      rw [addressOfParts_general ht hbase rfl (by simp), generalAddress_nil (hread ht hbase)]
      rfl
    | register ht hu =>
      rcases hcase with _ | ⟨hbase, _ | ⟨hink, _ | _⟩⟩
      refine ⟨by simp, ?_⟩
      rw [addressOfParts_general ht hbase (addressOffset_text s hu.clear (hhash hu) hink) (by simp),
        generalAddress_general (hread ht hbase) hu]
    | immediate ht hu =>
      rcases hcase with _ | ⟨hbase, _ | ⟨hink, _ | _⟩⟩
      refine ⟨by simp, ?_⟩
      rw [addressOfParts_general ht hbase (addressOffset_immediate s hu hink) (by simp),
        generalAddress_nil (hread ht hbase), Int32.ofInt_toInt]
    | lengths ht hu =>
      rcases hcase with _ | ⟨hbase, _ | ⟨hink, _ | ⟨hthird, _ | _⟩⟩⟩
      refine ⟨by simp, ?_⟩
      rw [addressOfParts_general ht hbase (addressOffset_immediate s hu hink)
        (by simp [lower_lengths hthird]), generalAddress_nil (hread ht hbase), Int32.ofInt_toInt]
    | @vectorOffset t u _ _ ht hu =>
      rcases hcase with _ | ⟨hbase, _ | ⟨hink, _ | _⟩⟩
      have hmark : u.head? ≠ some 0x23 := by rw [hu.head]; decide
      refine ⟨by simp, ?_⟩
      rw [addressOfParts_general ht hbase (addressOffset_text s (hu.clear rfl) hmark hink)
        (by simp), generalAddress_vector (hread ht hbase) hu]
    | vectorBase ht =>
      rcases hcase with _ | ⟨hbase, _ | _⟩
      refine ⟨by simp, ?_⟩
      rw [addressOfParts_vector ht hbase rfl (by simp)]
      rfl
    | vectorImmediate ht hu =>
      rcases hcase with _ | ⟨hbase, _ | ⟨hink, _ | _⟩⟩
      refine ⟨by simp, ?_⟩
      rw [addressOfParts_vector ht hbase (addressOffset_immediate s hu hink) (by simp),
        Int32.ofInt_toInt]
  · cases h with
    | immediate ht =>
      rcases hcase with _ | ⟨hbase, _ | ⟨hink, _ | _⟩⟩
      refine ⟨by simp, ?_⟩
      rw [addressOfParts_general ht hbase (hgap hink) (by simp),
        generalAddress_nil (hread ht hbase)]
      rfl
    | lengths ht =>
      rcases hcase with _ | ⟨hbase, _ | ⟨hink, _ | ⟨hthird, _ | _⟩⟩⟩
      refine ⟨by simp, ?_⟩
      rw [addressOfParts_general ht hbase (hgap hink) (by simp [lower_lengths hthird]),
        generalAddress_nil (hread ht hbase)]
      rfl
    | vectorBase ht =>
      rcases hcase with _ | ⟨hbase, _ | ⟨hink, _ | _⟩⟩
      refine ⟨by simp, ?_⟩
      rw [addressOfParts_vector ht hbase (hgap hink) (by simp)]
      rfl

private theorem generalAddress_cases {base offset : Bytes} {imm : Int} {a : Address}
    (h : generalAddress base offset imm = .ok a) :
    ∃ t r, GeneralText t r ∧ AnyCase t base ∧
      (offset = [] ∧ a = .ofImmediate r (Int32.ofInt imm) ∨
        offset ≠ [] ∧ ((∃ z, vector offset = .ok z ∧ a = .ofVectorOffset r z) ∨
          ∃ x, general offset = .ok x ∧ a = .ofScalar r x)) := by
  obtain ⟨r, hr, h⟩ := ok_bind_iff.mp h
  obtain ⟨t, ht, hcase⟩ := general_eq_ok_iff.mp hr
  refine ⟨t, r, ht, hcase, ?_⟩
  split at h
  next hnil =>
    left
    exact ⟨hnil, (Except.ok.inj h).symm⟩
  next hne =>
    right
    refine ⟨hne, ?_⟩
    split at h
    next =>
      obtain ⟨z, hz, h⟩ := ok_bind_iff.mp h
      exact .inl ⟨z, hz, (Except.ok.inj h).symm⟩
    next =>
      obtain ⟨x, hx, h⟩ := ok_bind_iff.mp h
      exact .inr ⟨x, hx, (Except.ok.inj h).symm⟩

private theorem vectorAddress_cases {s base offset : Bytes} {count : Nat} {imm : Int} {a : Address}
    (h : vectorAddress s count (Text.lower base) offset imm = .ok a) :
    ∃ t z, VectorText t z ∧ AnyCase t base ∧ offset = [] ∧ count ≠ 3 ∧
      a = .ofVectorBase z (Int32.ofInt imm) := by
  rw [vectorAddress] at h
  split at h
  next z hz =>
    obtain ⟨t, ht, hcase⟩ := vector_lower_iff.mp hz
    split at h
    · cases h
    next hcheck =>
      rw [not_or, Decidable.not_not] at hcheck
      exact ⟨t, z, ht, hcase, hcheck.1, hcheck.2, (Except.ok.inj h).symm⟩
  next => cases h

private theorem addressOfParts_cases {s base : Bytes} {rest : List Bytes} {a : Address}
    (h : addressOfParts s base rest = .ok a) :
    ∃ imm offset, addressOffset s rest.head? = .ok (imm, offset) ∧
      (rest.length = 2 →
        offset = [] ∧ rest[1]?.map Text.lower = some (Bytes.ofString "mul vl")) ∧
      ((∃ t z, VectorText t z ∧ AnyCase t base ∧ offset = [] ∧ rest.length + 1 ≠ 3 ∧
          a = .ofVectorBase z (Int32.ofInt imm)) ∨
        ∃ t r, GeneralText t r ∧ AnyCase t base ∧
          (offset = [] ∧ a = .ofImmediate r (Int32.ofInt imm) ∨
            offset ≠ [] ∧ ((∃ z, vector offset = .ok z ∧ a = .ofVectorOffset r z) ∨
              ∃ x, general offset = .ok x ∧ a = .ofScalar r x))) := by
  obtain ⟨⟨imm, offset⟩, hoffset, h⟩ := ok_bind_iff.mp h
  dsimp only at h
  split at h
  · cases h
  next hthird =>
    refine ⟨imm, offset, hoffset, ?_, ?_⟩
    · intro hlen
      rwa [not_and, not_or, Decidable.not_not, Decidable.not_not, imp_iff_right hlen] at hthird
    · split at h
      next => exact .inl (vectorAddress_cases h)
      next => exact .inr (generalAddress_cases h)

private theorem addressOffset_nil {s part : Bytes} {imm : Int}
    (h : addressOffset s (some part) = .ok (imm, [])) :
    (∃ u, IntegerText u (Int32.ofInt imm).toInt ∧ AnyCase (0x23 :: u) part) ∨
      imm = 0 ∧ AnyCase [] part := by
  rcases addressOffset_cases h with ⟨u, hu, hpart, -⟩ | ⟨himm, hlower⟩
  · exact .inl ⟨u, hu, hpart⟩
  · exact .inr ⟨himm, (Text.lower_eq_iff (by decide)).mp hlower.symm⟩

/-- Parts that are read as an address are of one of the forms. -/
private theorem parts_of_addressOfParts {s base : Bytes} {rest : List Bytes} {a : Address}
    (h : addressOfParts s base rest = .ok a) (hlen : rest.length ≤ 2) :
    ∃ parts, (AddressParts parts a ∨ GappedParts parts a) ∧
      List.Forall₂ AnyCase parts (base :: rest) := by
  obtain ⟨imm, offset, hoffset, hthird, hbase⟩ := addressOfParts_cases h
  match rest, hlen with
  | [], _ =>
    obtain ⟨rfl, rfl⟩ := Prod.mk.inj (Except.ok.inj hoffset)
    rcases hbase with ⟨t, z, ht, hcase, -, -, rfl⟩ | ⟨t, r, ht, hcase, ⟨-, rfl⟩ | ⟨hne, -⟩⟩
    · exact ⟨[t], .inl (.vectorBase ht), .cons hcase .nil⟩
    · exact ⟨[t], .inl (.base ht), .cons hcase .nil⟩
    · exact absurd rfl hne
  | [part], _ =>
    rcases hbase with ⟨t, z, ht, hcase, rfl, -, rfl⟩ | ⟨t, r, ht, hcase, ⟨rfl, rfl⟩ | ⟨hne, hoff⟩⟩
    · rcases addressOffset_nil hoffset with ⟨u, hu, hpart⟩ | ⟨rfl, hgap⟩
      · exact ⟨[t, 0x23 :: u], .inl (.vectorImmediate ht hu), .cons hcase (.cons hpart .nil)⟩
      · exact ⟨[t, []], .inr (.vectorBase ht), .cons hcase (.cons hgap .nil)⟩
    · rcases addressOffset_nil hoffset with ⟨u, hu, hpart⟩ | ⟨rfl, hgap⟩
      · exact ⟨[t, 0x23 :: u], .inl (.immediate ht hu), .cons hcase (.cons hpart .nil)⟩
      · exact ⟨[t, []], .inr (.immediate ht), .cons hcase (.cons hgap .nil)⟩
    · rcases addressOffset_cases hoffset with ⟨-, -, -, hnil⟩ | ⟨rfl, rfl⟩
      · exact absurd hnil hne
      rcases hoff with ⟨z, hz, rfl⟩ | ⟨x, hx, rfl⟩
      · obtain ⟨u, hu, hpart⟩ := vector_lower_iff.mp hz
        exact ⟨[t, u], .inl (.vectorOffset ht hu), .cons hcase (.cons hpart .nil)⟩
      · obtain ⟨u, hu, hpart⟩ := general_lower_iff.mp hx
        exact ⟨[t, u], .inl (.register ht hu), .cons hcase (.cons hpart .nil)⟩
  | [part, third], _ =>
    obtain ⟨rfl, hlower⟩ := hthird rfl
    have hlengths : AnyCase (Bytes.ofString "mul vl") third :=
      (Text.lower_eq_iff clear_lengths).mp (Option.some.inj hlower)
    rcases hbase with ⟨t, z, -, -, -, hcount, -⟩ | ⟨t, r, ht, hcase, ⟨-, rfl⟩ | ⟨hne, -⟩⟩
    · exact absurd rfl hcount
    · rcases addressOffset_nil hoffset with ⟨u, hu, hpart⟩ | ⟨rfl, hgap⟩
      · exact ⟨[t, 0x23 :: u, _], .inl (.lengths ht hu),
          .cons hcase (.cons hpart (.cons hlengths .nil))⟩
      · exact ⟨[t, [], _], .inr (.lengths ht), .cons hcase (.cons hgap (.cons hlengths .nil))⟩
    · exact absurd rfl hne

private theorem starts_of_lower {s t : Bytes} (h : Text.lower s = t)
    (ht : ∃ g gs, Text.glyphs t = g :: gs ∧ g.isDelimiter = false) : Text.StartsInk s := by
  obtain ⟨g, gs, hg, hink⟩ := ht
  rw [← h, Text.glyphs_lower] at hg
  obtain ⟨g', gs', hs, rfl, -⟩ := List.map_eq_cons_iff.mp hg
  rw [Text.Glyph.isDelimiter_lower] at hink
  exact ⟨g', gs', hs, Text.Glyph.isBlank_of_isDelimiter hink⟩

private theorem ends_of_lower {s t : Bytes} (h : Text.lower s = t)
    (ht : ∃ gs g, Text.glyphs t = gs ++ [g] ∧ g.isDelimiter = false) : Text.EndsInk s := by
  obtain ⟨gs, g, hg, hink⟩ := ht
  rw [← h, Text.glyphs_lower] at hg
  obtain ⟨gs', last, hs, -, hlast⟩ := List.map_eq_append_iff.mp hg
  obtain ⟨g', rfl, rfl⟩ := List.map_eq_singleton_iff.mp hlast
  rw [Text.Glyph.isDelimiter_lower] at hink
  exact ⟨gs', g', hs, Text.Glyph.isBlank_of_isDelimiter hink⟩

private def Fits (ink : Bytes) : Prop :=
  (ink = [] ∨ Text.StartsInk ink ∧ Text.EndsInk ink) ∧ Unmarked ink

private theorem fits_of_solid {ink : Bytes} (h : Text.Solid ink) : Fits ink := by
  refine ⟨?_, unmarked_of_solid h⟩
  by_cases hne : ink = []
  · exact .inl hne
  · exact .inr ⟨(h.tidy hne).starts, (h.tidy hne).ends⟩

private theorem fits_of_lengths {ink : Bytes} (h : AnyCase (Bytes.ofString "mul vl") ink) :
    Fits ink := by
  have hlower := lower_lengths h
  refine ⟨.inr ⟨starts_of_lower hlower ⟨_, _, rfl, ?_⟩,
    ends_of_lower hlower ⟨[.ofByte 0x6d, .ofByte 0x75, .ofByte 0x6c, .ofByte 0x20, .ofByte 0x76],
      _, rfl, ?_⟩⟩, unmarked_of_lower hlower ?_⟩
  · decide +kernel
  · decide +kernel
  · unfold Unmarked
    decide +kernel

private theorem fits_of_immediate {u ink : Bytes} {i : Int32} (hu : IntegerText u i.toInt)
    (h : AnyCase (0x23 :: u) ink) : Fits ink := by
  obtain ⟨v, hv, rfl⟩ := exists_of_hash h
  exact fits_of_solid (solid_of_dropHash (numeric_of_readInteger (readInteger_of_text hu hv)))

/-- The texts that occur as parts. -/
private inductive IsPart : Bytes → Prop
  | general {t : Bytes} {r : GeneralRegister} (h : GeneralText t r) : IsPart t
  | vector {t : Bytes} {z : VectorRegister} (h : VectorText t z) : IsPart t
  | immediate {u : Bytes} {i : Int32} (h : IntegerText u i.toInt) : IsPart (0x23 :: u)
  | lengths : IsPart (Bytes.ofString "mul vl")
  | gap : IsPart []

private theorem isPart_of_mem {parts : List Bytes} {a : Address}
    (h : AddressParts parts a ∨ GappedParts parts a) : ∀ part ∈ parts, IsPart part := by
  intro part hpart
  rcases h with h | h
  all_goals cases h
  all_goals grind [IsPart]

private theorem fits_of_isPart {part ink : Bytes} (h : IsPart part) (hcase : AnyCase part ink) :
    Fits ink := by
  cases h with
  | general ht => exact fits_of_solid (solid_of_general (general_eq_ok_iff.mpr ⟨_, ht, hcase⟩))
  | vector ht => exact fits_of_solid (solid_of_vector (vector_eq_ok_iff.mpr ⟨_, ht, hcase⟩))
  | immediate hu => exact fits_of_immediate hu hcase
  | lengths => exact fits_of_lengths hcase
  | gap =>
    obtain rfl := AnyCase.nil_left.mp hcase
    exact ⟨.inl rfl, fun c hc => by cases hc⟩

private theorem fits_of_parts {parts inks : List Bytes} (h : ∀ part ∈ parts, IsPart part)
    (hcase : List.Forall₂ AnyCase parts inks) : ∀ ink ∈ inks, Fits ink := by
  induction hcase with
  | nil => simp
  | cons hink _ ih =>
    rw [List.forall_mem_cons] at h ⊢
    exact ⟨fits_of_isPart h.1 hink, ih h.2⟩

private theorem exists_base {parts : List Bytes} {a : Address}
    (h : AddressParts parts a ∨ GappedParts parts a) : ∃ t ts, parts = t :: ts ∧ t ≠ [] := by
  rcases h with h | h
  all_goals cases h
  all_goals grind [GeneralText.ne_nil, VectorText.ne_nil]

private theorem insideBrackets_eq (t : Bytes) :
    insideBrackets? (0x5b :: (t ++ [0x5d])) = some t := by
  simp [insideBrackets?]

private theorem exists_inside {parts : List Bytes} {a : Address} {s : Bytes}
    (h : AddressParts parts a ∨ GappedParts parts a) (hs : Bracketed parts s) :
    ∃ t base rest, insideBrackets? s = some t ∧ Text.parts t = base :: rest ∧
      List.Forall₂ AnyCase parts (base :: rest) := by
  obtain ⟨inks, pieces, hcase, hpadded, rfl⟩ := hs
  obtain ⟨t, ts, rfl, ht⟩ := exists_base h
  have hfits := fits_of_parts (isPart_of_mem h) hcase
  cases hcase with
  | @cons _ base _ rest hbase hrest =>
    refine ⟨_, base, rest, insideBrackets_eq _, ?_, .cons hbase hrest⟩
    apply Text.parts_padded hpadded (by simp)
    -- one empty part would count as no parts at all, but the base is not empty
    · intro hgap
      obtain ⟨rfl, -⟩ := List.cons.inj hgap
      cases hbase
      exact ht rfl
    · exact fun ink hink => (hfits ink hink).1
    · exact fun ink hink => (hfits ink hink).2

theorem bracketed_of_address {s : Bytes} {a : Address} (h : address s = .ok a) :
    ∃ parts, (AddressParts parts a ∨ GappedParts parts a) ∧ Bracketed parts s := by
  rw [address] at h
  cases hinside : insideBrackets? s with
  | none =>
    rw [hinside] at h
    cases h
  | some t =>
    rw [hinside, Option.map_some] at h
    cases hparts : Text.parts t with
    | nil =>
      rw [hparts] at h
      cases h
    | cons base rest =>
      rw [hparts] at h
      dsimp only at h
      split at h
      · cases h
      next hlen =>
        obtain ⟨parts, hform, hcase⟩ := parts_of_addressOfParts h (Nat.not_lt.mp hlen)
        obtain ⟨pieces, hpadded, rfl⟩ := Text.exists_pieces hparts
        exact ⟨parts, hform, _, pieces, hcase, hpadded, eq_of_insideBrackets hinside⟩

theorem address_of_bracketed {parts : List Bytes} {s : Bytes} {a : Address}
    (h : AddressParts parts a ∨ GappedParts parts a) (hs : Bracketed parts s) :
    address s = .ok a := by
  obtain ⟨t, base, rest, hinside, hparts, hcase⟩ := exists_inside h hs
  obtain ⟨hlen, hread⟩ := addressOfParts_of_parts s h hcase
  rw [address, hinside, Option.map_some, hparts]
  dsimp only
  rw [if_neg (Nat.not_lt.mpr hlen), hread]

/-- An address is read from exactly the texts that write one of its forms between brackets, the
meant ones and those with an empty second part. -/
theorem address_read_iff (s : Bytes) (a : Address) :
    address s = .ok a ↔
      ∃ parts, (AddressParts parts a ∨ GappedParts parts a) ∧ Bracketed parts s := by
  constructor
  · intro h
    exact bracketed_of_address h
  · rintro ⟨parts, h, hs⟩
    exact address_of_bracketed h hs

private theorem ne_nil_of_mem {parts : List Bytes} {a : Address} (h : AddressParts parts a) :
    ∀ part ∈ parts, part ≠ [] := by
  have hlengths : Bytes.ofString "mul vl" ≠ [] := by decide +kernel
  cases h
  all_goals grind [GeneralText.ne_nil, VectorText.ne_nil]

/-- The text `[x1, ]` is read as an address though none of the meant forms can be written so. -/
theorem address_empty_part :
    address (Bytes.ofString "[x1, ]") = .ok (.ofImmediate ⟨1⟩ 0) ∧
      ¬∃ parts a, AddressParts parts a ∧ Bracketed parts (Bytes.ofString "[x1, ]") := by
  refine ⟨by decide +kernel, ?_⟩
  rintro ⟨parts, a, hform, hs⟩
  obtain ⟨t, base, rest, hinside, hparts, hcase⟩ := exists_inside (.inl hform) hs
  have hcut : (insideBrackets? (Bytes.ofString "[x1, ]")).map Text.parts =
      some [Bytes.ofString "x1", []] := by decide +kernel
  rw [hinside, Option.map_some, hparts] at hcut
  obtain ⟨rfl, rfl⟩ := List.cons.inj (Option.some.inj hcut)
  rcases hcase with _ | ⟨hbase, _ | ⟨hgap, _ | _⟩⟩
  cases hgap
  exact ne_nil_of_mem hform [] (by simp) rfl

end Reader

end ScalableVector
