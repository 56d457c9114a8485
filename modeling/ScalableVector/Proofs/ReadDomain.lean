import ScalableVector.Proofs.AddressText
import ScalableVector.Proofs.Bounded
import ScalableVector.Proofs.FrontEnd

/-!
# Domains of what is read

Operands can hold any byte, but those that are read from texts name something that exists. Only a
pattern may be a number that has no encoding. So no line of a listing is refused for a register
outside of its file, and a rotation is refused only where half of the four rotations are allowed.
-/

namespace ScalableVector

open Number (IntegerText Magnitude)
open Text (AnyCase)

/-- The address has a mode that exists, its registers exist, and what the mode does not use is
zero. -/
structure Address.Sound (a : Address) : Prop where
  mode : a.mode.code ≤ 3
  base : a.base.code < 64
  offset : a.offset.code < 64
  vectorBase : a.vectorBase.number ≤ 31
  vectorOffset : a.vectorOffset.number ≤ 31
  unusedBase : a.mode = .vectorImmediate → a.base = ⟨0⟩
  unusedOffset : a.mode ≠ .scalarScalar → a.offset = ⟨0⟩
  unusedVectorBase : a.mode ≠ .vectorImmediate → a.vectorBase = ⟨0⟩
  unusedVectorOffset : a.mode ≠ .scalarVector → a.vectorOffset = ⟨0⟩
  unusedImmediate : a.mode ∈ [.scalarScalar, .scalarVector] → a.immediate = 0

def Rotation.every : List Rotation := [⟨0⟩, ⟨1⟩, ⟨2⟩, ⟨3⟩]

/-- The operand exists, and an integer is the one that the text writes. -/
def Operand.Sound (text : Bytes) : Operand → Prop
  | .element size => size.code ≤ ElementSize.quad.code
  | .vector z => z.number ≤ 31
  | .predicate _ p => p.number ≤ 15
  | .scalar v => v.number ≤ 31
  | .general r => r.code < 64
  | .rotation r => r ∈ Rotation.every
  | .form f => f.code ≤ 1
  | .address a => a.Sound
  | .int32 i => ∃ t, IntegerText t i.toInt ∧ AnyCase t (Reader.dropHash text)
  | .int64 i => ∃ t, IntegerText t i.toInt ∧ AnyCase t (Reader.dropHash text)
  | .uint32 n => ∃ t, Magnitude t n.toNat ∧ AnyCase t (Reader.dropHash text)
  | .pattern _ | .float _ | .flag _ => True

theorem Numbered.lt {letter : UInt8} {limit : Nat} {t : Bytes} {n : UInt8}
    (h : Numbered letter limit t n) : n.toNat < limit := by
  obtain ⟨_, -, hlt, -⟩ := h
  exact hlt

theorem Arranged.lt {letter : UInt8} {limit : Nat} {t : Bytes} {n : UInt8}
    (h : Arranged letter limit t n) : n.toNat < limit := by
  obtain ⟨_, _, hn, -, -⟩ := h
  exact hn.lt

theorem VectorText.le {t : Bytes} {z : VectorRegister} (h : VectorText t z) : z.number ≤ 31 :=
  UInt8.le_iff_toNat_le.mpr (Nat.le_of_lt_succ (Arranged.lt h))

theorem GeneralText.lt {t : Bytes} {r : GeneralRegister} (h : GeneralText t r) : r.code < 64 := by
  cases h with
  | sp | xzr | wsp | wzr => decide
  | x h =>
    have hlt := h.lt
    exact UInt8.lt_iff_toNat_lt.mpr (Nat.lt_trans hlt (by decide))
  | @w _ n h =>
    have hlt := h.lt
    have hsum : ((32 : UInt8) + n).toNat = 32 + n.toNat := by
      rw [UInt8.toNat_add]
      exact Nat.mod_eq_of_lt (by simp only [UInt8.reduceToNat]; omega)
    exact UInt8.lt_iff_toNat_lt.mpr (by simp only [hsum, UInt8.reduceToNat]; omega)

namespace Address

variable {r x : GeneralRegister} {z : VectorRegister}

theorem sound_ofScalar (hr : r.code < 64) (hx : x.code < 64) : (ofScalar r x).Sound := by
  constructor <;> simp_all [ofScalar, AddressMode.scalarScalar, AddressMode.vectorImmediate]

theorem sound_ofImmediate (hr : r.code < 64) (i : Int32) : (ofImmediate r i).Sound := by
  constructor <;> simp_all [ofImmediate, AddressMode.scalarScalar, AddressMode.vectorImmediate,
    AddressMode.scalarImmediate, AddressMode.scalarVector]

theorem sound_ofVectorOffset (hr : r.code < 64) (hz : z.number ≤ 31) :
    (ofVectorOffset r z).Sound := by
  constructor <;> simp_all [ofVectorOffset, AddressMode.vectorImmediate, AddressMode.scalarVector]

theorem sound_ofVectorBase (hz : z.number ≤ 31) (i : Int32) : (ofVectorBase z i).Sound := by
  constructor <;> simp_all [ofVectorBase, AddressMode.scalarScalar, AddressMode.vectorImmediate,
    AddressMode.scalarVector]

end Address

namespace Reader

theorem sound_of_elementSize {s : Bytes} {size : ElementSize} (h : elementSize s = .ok size) :
    size.code ≤ ElementSize.quad.code := by
  have hsuffix : ∀ entry ∈ ElementSize.suffixes, entry.1.code ≤ ElementSize.quad.code := by decide
  have hwidth : ∀ size ∈ ElementSizes.every, size.code ≤ ElementSize.quad.code := by decide
  rw [elementSize] at h
  split at h
  next found hfound =>
    cases h
    rcases Option.or_eq_some_iff.mp hfound with hfound | ⟨-, hfound⟩
    · obtain ⟨entry, hentry, rfl⟩ := Option.map_eq_some_iff.mp hfound
      exact hsuffix entry (List.mem_of_find?_eq_some hentry)
    · exact hwidth size (List.mem_of_find?_eq_some hfound)
  next => cases h

theorem sound_of_rotation {s : Bytes} {r : Rotation} (h : rotation s = .ok r) :
    r ∈ Rotation.every := by
  rw [rotation] at h
  split at h
  next degrees hdegrees =>
    cases h
    obtain ⟨-, hbounds⟩ := Option.filter_eq_some_iff.mp hdegrees
    obtain ⟨hlo, hhi, -⟩ := of_decide_eq_true hbounds
    have hevery : ∀ n ≤ 3, (⟨UInt8.ofNat n⟩ : Rotation) ∈ Rotation.every := by decide
    exact hevery _ (by omega)
  next => cases h

theorem sound_of_address {s : Bytes} {a : Address} (h : address s = .ok a) : a.Sound := by
  obtain ⟨parts, hparts | hparts, -⟩ := bracketed_of_address h
  · cases hparts with
    | base ht => exact Address.sound_ofImmediate ht.lt 0
    | register ht hu => exact Address.sound_ofScalar ht.lt hu.lt
    | immediate ht | lengths ht => exact Address.sound_ofImmediate ht.lt _
    | vectorOffset ht hu => exact Address.sound_ofVectorOffset ht.lt hu.le
    | vectorBase ht => exact Address.sound_ofVectorBase ht.le 0
    | vectorImmediate ht => exact Address.sound_ofVectorBase ht.le _
  · cases hparts with
    | immediate ht | lengths ht => exact Address.sound_ofImmediate ht.lt 0
    | vectorBase ht => exact Address.sound_ofVectorBase ht.le 0

end Reader

theorem Operand.sound_of_read {kind : OperandKind} {s : Bytes} {o : Operand}
    (h : Operand.read kind s = .ok o) : o.Sound s := by
  cases kind with
  | element =>
    obtain ⟨size, hsize, rfl⟩ := ok_map_iff.mp h
    exact Reader.sound_of_elementSize hsize
  | vector =>
    obtain ⟨z, hz, rfl⟩ := ok_map_iff.mp h
    obtain ⟨t, ht, -⟩ := Reader.vector_eq_ok_iff.mp hz
    exact ht.le
  | predicate view =>
    obtain ⟨p, hp, rfl⟩ := ok_map_iff.mp h
    obtain ⟨t, ⟨u, hu, -⟩, -⟩ := Reader.predicate_eq_ok_iff.mp hp
    exact UInt8.le_iff_toNat_le.mpr (Nat.le_of_lt_succ hu.lt)
  | scalar =>
    obtain ⟨v, hv, rfl⟩ := ok_map_iff.mp h
    obtain ⟨t, ⟨letter, -, ht⟩, -⟩ := Reader.scalar_eq_ok_iff.mp hv
    exact UInt8.le_iff_toNat_le.mpr (Nat.le_of_lt_succ ht.lt)
  | general =>
    obtain ⟨r, hr, rfl⟩ := ok_map_iff.mp h
    obtain ⟨t, ht, -⟩ := Reader.general_eq_ok_iff.mp hr
    exact ht.lt
  | rotation =>
    obtain ⟨r, hr, rfl⟩ := ok_map_iff.mp h
    exact Reader.sound_of_rotation hr
  | form =>
    obtain ⟨f, -, rfl⟩ := ok_map_iff.mp h
    change f.code ≤ 1
    cases f <;> decide
  | address =>
    obtain ⟨a, ha, rfl⟩ := ok_map_iff.mp h
    exact Reader.sound_of_address ha
  | int32 =>
    obtain ⟨i, hi, rfl⟩ := ok_map_iff.mp h
    rw [Reader.integer, Number.ok_mapError_iff, Number.readInteger_eq_ok_iff (by decide)] at hi
    obtain ⟨⟨hlow, hhigh⟩, hwritten⟩ := hi
    rwa [Operand.Sound, Int32.toInt_ofInt_of_le hlow hhigh]
  | int64 =>
    obtain ⟨i, hi, rfl⟩ := ok_map_iff.mp h
    rw [Reader.integer, Number.ok_mapError_iff, Number.readInteger_eq_ok_iff (by decide)] at hi
    obtain ⟨⟨hlow, hhigh⟩, hwritten⟩ := hi
    rwa [Operand.Sound, Int64.toInt_ofInt_of_le hlow hhigh]
  | uint32 =>
    obtain ⟨n, hn, rfl⟩ := ok_map_iff.mp h
    rw [Number.ok_mapError_iff, Number.readNatural_eq_ok_iff] at hn
    obtain ⟨hlt, hwritten⟩ := hn
    rwa [Operand.Sound, UInt32.toNat_ofNat_of_lt' hlt]
  | pattern | float | flag =>
    obtain ⟨_, -, rfl⟩ := ok_map_iff.mp h
    trivial

/-- The registers of the operand lie within their files, and it is no rotation that does not
exist. -/
structure Operand.Admissible (o : Operand) : Prop where
  file : o.inFile = true
  rotation : ∀ r, o = .rotation r → r ∈ Rotation.every
  address : ∀ a, o = .address a → a.base.code < 64 ∧ a.offset.code < 64

theorem Operand.Sound.admissible {text : Bytes} {o : Operand} (h : o.Sound text) :
    o.Admissible where
  file := by
    cases o with
    | vector z | scalar z | predicate _ z =>
      refine decide_eq_true (UInt8.lt_iff_toNat_lt.mpr (Nat.lt_succ_of_le ?_))
      exact UInt8.le_iff_toNat_le.mp h
    | general r => exact decide_eq_true h
    | _ => rfl
  rotation := by
    rintro r rfl
    exact h
  address := by
    rintro a rfl
    exact ⟨Address.Sound.base h, Address.Sound.offset h⟩

theorem Operand.admissible_of_kind {o : Operand} (hfile : o.inFile = true)
    (hrotation : o.kind ≠ .rotation) (haddress : o.kind ≠ .address) : o.Admissible where
  file := hfile
  rotation := by
    rintro r rfl
    exact absurd rfl hrotation
  address := by
    rintro a rfl
    exact absurd rfl haddress

theorem Operand.admissible_general {r : GeneralRegister} (h : r.code < 64) :
    (Operand.general r).Admissible :=
  admissible_of_kind (decide_eq_true h) (by simp [Operand.kind]) (by simp [Operand.kind])

/-- The cause can be found in a line: registers lie within their files, and a rotation is refused
only where it would have to be a quarter turn or three. -/
def Cause.Occurs : Cause → Prop
  | .registerFile _ => False
  | .rotation r => r ∈ [⟨0⟩, ⟨2⟩]
  | _ => True

section
variable {ops : List Operand} (h : ∀ o ∈ ops, o.Admissible)
include h

theorem admissible_operandAt (slot : Nat) : (operandAt ops slot).Admissible := by
  rw [operandAt, List.getD_eq_getElem?_getD]
  cases hslot : ops[slot]? with
  | none => exact Operand.admissible_of_kind rfl (by decide) (by decide)
  | some o => exact h o (List.mem_of_getElem? hslot)

theorem registerFault_of_admissible (slot : Nat) : Check.registerFault ops slot = none :=
  if_pos (admissible_operandAt h slot).file

theorem rotationAt_of_admissible (slot : Nat) : rotationAt ops slot ∈ Rotation.every := by
  have hslot := (admissible_operandAt h slot).rotation
  rw [rotationAt]
  split
  next r hr => exact hslot r hr
  next => decide

theorem addressAt_of_admissible (slot : Nat) :
    (addressAt ops slot).base.code < 64 ∧ (addressAt ops slot).offset.code < 64 := by
  have hslot := (admissible_operandAt h slot).address
  rw [addressAt]
  split
  next a ha => exact hslot a ha
  next => decide

theorem Layout.admissible_of_chosen {l : Layout} {e : Encoding} {read : List Operand}
    (hl : l.chosen ops = some (e, read)) : ∀ o ∈ read, o.Admissible := by
  cases l with
  | fixed | bySize =>
    obtain ⟨-, rfl⟩ := Prod.mk.inj (Option.some.inj hl)
    exact h
  | byAddress slot register immediate =>
    obtain ⟨hbase, hoffset⟩ := addressAt_of_admissible h slot
    obtain ⟨⟨e', offset⟩, hmode, hread⟩ := Option.map_eq_some_iff.mp hl
    obtain ⟨rfl, rfl⟩ := Prod.mk.inj hread
    -- the offset is a register of the address or a number
    have hadmissible : offset.Admissible := by
      rw [byMode] at hmode
      split at hmode
      · cases hmode
        exact Operand.admissible_general hoffset
      · split at hmode <;> cases hmode
        exact Operand.admissible_of_kind rfl (by simp [Operand.kind]) (by simp [Operand.kind])
    intro o ho
    rw [withOffset, List.mem_append] at ho
    rcases ho with ho | ho
    · exact h o (List.mem_of_mem_take ho)
    · simp only [List.mem_cons, List.not_mem_nil, or_false] at ho
      rcases ho with rfl | rfl
      · exact Operand.admissible_general hbase
      · exact hadmissible

theorem Check.occurs_of_fault {k : Check} {cause : Cause} (hk : k.fault ops = some cause) :
    cause.Occurs := by
  have hregister := registerFault_of_admissible h
  cases k with
  | register slot =>
    rw [fault, hregister] at hk
    cases hk
  | wide slot =>
    rw [fault, wideFault, hregister, Option.none_or] at hk
    obtain ⟨-, ⟨⟩⟩ := Option.ite_none_left_eq_some.mp hk
    trivial
  | offset slot =>
    rw [fault, wideFault, hregister, Option.none_or] at hk
    rcases Option.or_eq_some_iff.mp hk with hk | ⟨-, hk⟩
    · obtain ⟨-, ⟨⟩⟩ := Option.ite_none_left_eq_some.mp hk
      trivial
    · obtain ⟨-, ⟨⟩⟩ := Option.ite_none_right_eq_some.mp hk
      trivial
  | elementRegister _ slot =>
    rw [fault, hregister, Option.none_or] at hk
    obtain ⟨-, ⟨⟩⟩ := Option.ite_none_left_eq_some.mp hk
    trivial
  | rotation slot =>
    obtain ⟨hne, ⟨⟩⟩ := Option.ite_none_left_eq_some.mp hk
    have hrest : ∀ r ∈ Rotation.every, r ∉ [⟨1⟩, ⟨3⟩] → r ∈ [⟨0⟩, ⟨2⟩] := by decide
    exact hrest _ (rotationAt_of_admissible h slot) hne
  | shift | longShift =>
    rcases Option.or_eq_some_iff.mp hk with hk | ⟨-, hk⟩
    all_goals
      obtain ⟨-, ⟨⟩⟩ := Option.ite_none_left_eq_some.mp hk
      trivial
  | unshiftedByte =>
    obtain ⟨-, ⟨⟩⟩ := Option.ite_none_right_eq_some.mp hk
    trivial
  | float | convertible =>
    rw [fault] at hk
    split at hk <;> cases hk
    trivial
  | _ =>
    obtain ⟨-, ⟨⟩⟩ := Option.ite_none_left_eq_some.mp hk
    trivial

theorem Layout.occurs_of_encode {l : Layout} {cause : Cause} (hl : l.encode ops = .error cause) :
    cause.Occurs := by
  cases hchosen : l.chosen ops with
  | some choice =>
    obtain ⟨e, read⟩ := choice
    rw [Layout.encode_of_chosen hchosen, Encoding.encode_eq_error] at hl
    obtain ⟨k, -, hk⟩ := List.exists_of_findSome?_eq_some hl
    exact Check.occurs_of_fault (Layout.admissible_of_chosen h hchosen) hk
  | none =>
    cases l with
    | fixed | bySize => cases hchosen
    | byAddress slot register immediate =>
      simp only [Layout.chosen, Layout.byMode, Option.map_eq_none_iff] at hchosen
      simp only [Layout.encode] at hl
      split at hchosen
      · cases hchosen
      next hscalar =>
        split at hchosen
        · cases hchosen
        next himmediate =>
          rw [if_neg hscalar, if_neg himmediate] at hl
          split at hl <;> cases hl
          all_goals trivial

end

theorem Call.occurs_of_error {c : Call} (hc : ∀ o ∈ c.operands, o.Admissible)
    {features : FeatureSet} {r : Rejection} (h : c.error features = some r) : r.cause.Occurs := by
  cases hencode : c.encode features with
  | ok w =>
    rw [(Call.solo_of_ok hencode).2] at h
    cases h
  | error r' =>
    rw [(Call.solo_of_error hencode).2] at h
    cases h
    rw [Call.encode, Instruction.encode, Instruction.word] at hencode
    split at hencode
    · cases hl : c.instruction.layout.encode c.operands with
      | ok w =>
        rw [hl] at hencode
        cases hencode
      | error cause =>
        rw [hl] at hencode
        cases hencode
        exact Layout.occurs_of_encode hc hl
    · cases hencode
      trivial

namespace Line

theorem Reads.sound {kinds : List OperandKind} {texts : List Bytes} {ops : List Operand}
    (h : Reads kinds texts ops) : ∀ o ∈ ops, ∃ text ∈ texts, o.Sound text := by
  induction h with
  | nil => exact fun _ ho => by cases ho
  | cons head _ ih =>
    rw [List.forall_mem_cons]
    refine ⟨⟨_, List.mem_cons_self, Operand.sound_of_read head⟩, fun o ho => ?_⟩
    obtain ⟨text, htext, hsound⟩ := ih o ho
    exact ⟨text, List.mem_cons_of_mem _ htext, hsound⟩

theorem admissible_of_parse {line : Bytes} {c : Call} (h : parse line = .ok (some c)) :
    ∀ o ∈ c.operands, o.Admissible := by
  rcases parse_eq_ok_iff.mp h with ⟨-, hnone⟩ | ⟨-, c', hcall, hsome⟩
  · cases hnone
  · cases hsome
    intro o ho
    obtain ⟨text, -, hsound⟩ := (call_eq_ok_iff.mp hcall).2.sound o ho
    exact hsound.admissible

end Line

namespace Listing

variable {σ : Type} [Sink σ]

theorem occurs_of_step {e : Emitter σ} (he : e.rejection = none) {line : Bytes} {r : Rejection}
    (h : (step e line).2 = some (.rejected r)) : r.cause.Occurs := by
  rw [step] at h
  split at h
  · cases h
  · cases h
  next c hc =>
    obtain ⟨r', hr, hrejected⟩ := Option.map_eq_some_iff.mp h
    cases hrejected
    rw [(Emitter.emit_of_open he c).2.2] at hr
    exact Call.occurs_of_error (Line.admissible_of_parse hc) hr

theorem rejection_of_step {e : Emitter σ} (he : e.rejection = none) {line : Bytes}
    (h : (step e line).2 = none) : (step e line).1.rejection = none := by
  rw [step] at h ⊢
  split at h
  · cases h
  · exact he
  next c hc => exact Option.map_eq_none_iff.mp h

theorem occurs_of_encodeLines {number : Nat} {e : Emitter σ} (he : e.rejection = none)
    {lines : List Bytes} {n : Nat} {r : Rejection}
    (h : (encodeLines number e lines).2 = some (.line n (.rejected r))) : r.cause.Occurs := by
  induction lines generalizing number e with
  | nil => cases h
  | cons line rest ih =>
    rw [encodeLines] at h
    split at h
    · cases h
    · have hstep : (step e (dropReturn line)).2 = some (.rejected r) → r.cause.Occurs :=
        occurs_of_step he
      have hopen : (step e (dropReturn line)).2 = none →
          (step e (dropReturn line)).1.rejection = none := rejection_of_step he
      split at h
      next e' error heq =>
        rw [heq] at hstep
        cases h
        exact hstep rfl
      next e' heq =>
        rw [heq] at hopen
        exact ih (hopen rfl) h

/-- What is read exists, but for patterns. So the registers of a line pass the checks of their
files, its rotations are among the four, and no listing fails for a register outside of its file or
for a rotation that does not exist. -/
theorem read_operands_exist :
    (∀ kind text o, Operand.read kind text = .ok o → o.Sound text) ∧
    (∃ text p, Operand.read .pattern text = .ok (.pattern p) ∧ 31 < p.code) ∧
    (∀ line c, Line.parse line = .ok (some c) →
      (∀ encoding read, c.instruction.layout.chosen c.operands = some (encoding, read) →
        ∀ slot, Check.registerFault read slot = none) ∧
      ∀ r, Operand.rotation r ∈ c.operands → r ∈ Rotation.every) ∧
    ∀ (e : Emitter σ) (r : Rejection), e.rejection = none →
      (∀ line, (step e line).2 = some (.rejected r) → r.cause.Occurs) ∧
      ∀ text number, (encode e text).2 = some (.line number (.rejected r)) → r.cause.Occurs := by
  refine ⟨fun _ _ _ => Operand.sound_of_read, ⟨Bytes.ofString "#255", ⟨255⟩, ?_, by decide⟩,
    fun line c hc => ⟨fun encoding read hread slot => ?_, fun r hr => ?_⟩,
    fun e r he => ⟨fun line => occurs_of_step he, fun text number => occurs_of_encodeLines he⟩⟩
  · exact read_of_toOption (by decide +kernel)
  · exact registerFault_of_admissible
      (Layout.admissible_of_chosen (Line.admissible_of_parse hc) hread) slot
  · exact (Line.admissible_of_parse hc _ hr).rotation r rfl

private theorem exists_call {line : Bytes} {name : String} {ops : List Operand}
    (h : ((Line.parse line).toOption.bind id).map (fun c => (c.instruction.name, c.operands)) =
      some (name, ops)) :
    ∃ c, Line.parse line = .ok (some c) ∧ c.instruction.name = name ∧ c.operands = ops := by
  obtain ⟨c, hc, heq⟩ := Option.map_eq_some_iff.mp h
  obtain ⟨rfl, rfl⟩ := Prod.mk.inj heq
  refine ⟨c, ?_, rfl, rfl⟩
  cases hparse : Line.parse line with
  | error e =>
    rw [hparse] at hc
    cases hc
  | ok result =>
    rw [hparse] at hc
    rw [show result = some c from hc]

theorem read_operands_exist_rotations :
    (∃ c, Line.parse (Bytes.ofString "fcmla s, z31.s, p7/m, z30.s, z29.s, #270") = .ok (some c) ∧
      c.instruction.name = "Fcmla" ∧ Operand.rotation ⟨3⟩ ∈ c.operands ∧ ⟨3⟩ ∈ Rotation.every) ∧
    (step (Emitter.new .standard WordLog.empty)
        (Bytes.ofString "fcadd s, z0.s, p0/m, z0.s, z1.s, #180")).2 =
      some (.rejected ⟨"fcadd", .rotation ⟨2⟩⟩) ∧ Cause.Occurs (.rotation ⟨2⟩) := by
  obtain ⟨-, -, hline, hlisting⟩ := read_operands_exist (σ := WordLog)
  have hstep : (step (Emitter.new .standard WordLog.empty)
      (Bytes.ofString "fcadd s, z0.s, p0/m, z0.s, z1.s, #180")).2 =
        some (.rejected ⟨"fcadd", .rotation ⟨2⟩⟩) := by decide +kernel
  refine ⟨?_, hstep, (hlisting _ _ rfl).1 _ hstep⟩
  have hcall : ∃ c, Line.parse (Bytes.ofString "fcmla s, z31.s, p7/m, z30.s, z29.s, #270") =
      .ok (some c) ∧ c.instruction.name = "Fcmla" ∧ c.operands = [.element .single, .vector ⟨31⟩,
        .predicate .merging ⟨7⟩, .vector ⟨30⟩, .vector ⟨29⟩, .rotation ⟨3⟩] :=
    exists_call (by decide +kernel)
  obtain ⟨c, hc, hname, hops⟩ := hcall
  have hrotation : Operand.rotation ⟨3⟩ ∈ c.operands := by simp [hops]
  exact ⟨c, hc, hname, hrotation, (hline _ c hc).2 ⟨3⟩ hrotation⟩

end Listing

end ScalableVector
