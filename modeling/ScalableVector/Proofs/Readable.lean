import ScalableVector.Proofs.Joined
import ScalableVector.Proofs.NumberText

/-!
# Operand texts are tidy

Every text that is read as an operand of some kind keeps its place when operand texts are joined
to a line.
-/

namespace ScalableVector

open Text (Glyph Solid Tidy)
open Number (Numeric)

private instance decidableSolid (s : Bytes) : Decidable (Solid s) :=
  inferInstanceAs (Decidable (∀ g ∈ Text.glyphs s, g.isDelimiter = false))

private theorem solid_append {s t : Bytes} (hs : Solid s) {c : UInt8} (hc : c.toNat < 0x80)
    (hd : (Glyph.ofByte c).isDelimiter = false) (ht : Solid t) : Solid (s ++ c :: t) := by
  intro g hg
  rw [Text.glyphs_append hc, List.mem_append, List.mem_cons] at hg
  rcases hg with hg | rfl | hg
  · exact hs g hg
  · exact hd
  · exact ht g hg

private theorem solid_nil : Solid [] := by decide

private theorem solid_cons {c : UInt8} (hc : c.toNat < 0x80)
    (hd : (Glyph.ofByte c).isDelimiter = false) {s : Bytes} (hs : Solid s) : Solid (c :: s) :=
  solid_append solid_nil hc hd hs

private theorem ofByte_number (c : UInt8) :
    (!Number.isNumberByte c || !(Glyph.ofByte c).isDelimiter) = true := by
  revert c
  exact Text.forall_byte (by decide +kernel)

theorem solid_of_numeric {s : Bytes} (h : Numeric s) : Solid s := by
  intro g hg
  rw [Text.glyphs_ascii fun c hc => h.ascii hc] at hg
  obtain ⟨c, hc, rfl⟩ := List.mem_map.mp hg
  have hbyte := ofByte_number c
  rw [h c hc] at hbyte
  simpa using hbyte

/-- What a text looks like that is read as an operand: it holds no delimiters, or it is a predicate
with one slash in front of its qualifier, or it stands between brackets and holds no further ones,
and no slash. -/
inductive OperandText : Bytes → Prop
  | solid {s : Bytes} (h : Solid s) : OperandText s
  | qualified {s t : Bytes} {m : UInt8} (h : Text.lower s = t ++ [0x2f, m]) (ht : Solid t)
      (hm : m.toNat < 0x80) (hd : (Glyph.ofByte m).isDelimiter = false) : OperandText s
  | bracketed {s : Bytes} (h : ∀ c ∈ s, Text.isMarkByte c = true → c = 0x2c) :
      OperandText (0x5b :: (s ++ [0x5d]))

namespace OperandText

theorem tidy {s : Bytes} (h : OperandText s) (hne : s ≠ []) : Tidy s := by
  cases h with
  | solid h => exact h.tidy hne
  | qualified h ht hm hd => exact Text.tidy_of_lower h ht hm hd
  | bracketed h => exact Text.tidy_bracketed h

theorem getLast?_ne_slash {s : Bytes} (h : OperandText s) : s.getLast? ≠ some 0x2f := by
  intro hlast
  obtain ⟨u, hu⟩ := List.getLast?_eq_some_iff.mp hlast
  cases h with
  | solid h => exact h.not_mem rfl (List.mem_of_getLast? hlast)
  | @qualified _ t m h ht hm hd =>
    -- the last glyph would be a slash in lower case too, but there it is the qualifier
    have hslash : (Glyph.ofByte 0x2f).lower = .ofByte 0x2f :=
      Text.Glyph.lower_delimiter (by decide)
    have hglyphs : Text.glyphs t ++ [.ofByte 0x2f] ++ [.ofByte m] =
        (Text.glyphs u).map Glyph.lower ++ [.ofByte 0x2f] := by
      have hlower := Text.glyphs_lower s
      rw [h, Text.glyphs_append (by decide), ← List.nil_append [m], Text.glyphs_append hm, hu,
        Text.glyphs_append (by decide), List.map_append, List.map_cons, hslash] at hlower
      rw [List.append_assoc]
      exact hlower
    obtain ⟨-, hmark⟩ := List.append_inj' hglyphs rfl
    rw [(List.cons.inj hmark).1] at hd
    cases hd
  | bracketed h =>
    rw [← List.cons_append, List.getLast?_append] at hlast
    cases hlast

end OperandText

namespace Reader

private theorem solid_of_dropMark (mark : UInt8) (hm : mark.toNat < 0x80)
    (hd : (Glyph.ofByte mark).isDelimiter = false) {s : Bytes} (h : Solid (dropMark mark s)) :
    Solid s := by
  cases s with
  | nil => exact solid_nil
  | cons c s =>
    rw [dropMark] at h
    split at h
    next hc =>
      subst hc
      exact solid_cons hm hd h
    next => exact h

theorem solid_of_dropHash {s : Bytes} (h : Numeric (dropHash s)) : Solid s :=
  solid_of_dropMark 0x23 (by decide) (by decide) (solid_of_numeric h)

private theorem solid_of_find {α : Type} {table : List α} {text : α → String}
    (ht : ∀ e ∈ table, Solid (Bytes.ofString (text e))) {s : Bytes} {e : α}
    (h : (table.find? fun e => Bytes.ofString (text e) = s) = some e) : Solid s := by
  have heq := List.find?_some h
  rw [← of_decide_eq_true heq]
  exact ht e (List.mem_of_find?_eq_some h)

private theorem solid_of_ofSuffix {s : Bytes} {size : ElementSize}
    (h : ElementSize.ofSuffix? s = some size) : Solid s := by
  obtain ⟨entry, hentry, -⟩ := Option.map_eq_some_iff.mp h
  exact solid_of_find (by decide +kernel) hentry

private theorem solid_of_ofWidth {s : Bytes} {size : ElementSize}
    (h : ElementSize.ofWidth? s = some size) : Solid s :=
  solid_of_find (by decide +kernel) h

private theorem solid_of_elementSize {s : Bytes} {size : ElementSize}
    (h : elementSize s = .ok size) : Solid s := by
  rw [elementSize] at h
  refine solid_of_dropMark 0x2e (by decide) (by decide) (Text.solid_lower.mp ?_)
  cases hsuffix : ElementSize.ofSuffix? (Text.lower (dropMark 0x2e s)) with
  | some size' => exact solid_of_ofSuffix hsuffix
  | none =>
    cases hwidth : ElementSize.ofWidth? (Text.lower (dropMark 0x2e s)) with
    | some size' => exact solid_of_ofWidth hwidth
    | none =>
      simp only [hsuffix, hwidth] at h
      cases h

private theorem solid_of_numberBelow {letter : UInt8} {limit : Nat} {s : Bytes} {n : UInt8}
    (hl : letter.toNat < 0x80) (hd : (Glyph.ofByte letter).isDelimiter = false)
    (h : numberBelow letter limit s = .ok n) : Solid s := by
  rw [numberBelow.eq_def] at h
  split at h
  next c digits =>
    by_cases hc : c = letter
    · rw [if_pos hc] at h
      subst hc
      cases hn : Number.digitsValue? digits with
      | none => rw [hn] at h; cases h
      | some m => exact solid_cons hl hd (solid_of_numeric (Number.numeric_of_digitsValue hn))
    · rw [if_neg hc] at h
      cases h
  next => cases h

private theorem solid_of_dropArrangement {s t : Bytes} (h : dropArrangement s = .ok t)
    (ht : Solid t) : Solid s := by
  rw [dropArrangement] at h
  cases hs : s.dropWhile (· ≠ 0x2e) with
  | nil =>
    rw [hs] at h
    cases h
    exact ht
  | cons c suffix =>
    rw [hs] at h
    dsimp only at h
    have hc : c = 0x2e := by
      have hhead := List.head?_dropWhile_not (· ≠ 0x2e) s
      rw [hs] at hhead
      simpa using hhead
    cases hsuffix : ElementSize.ofSuffix? suffix with
    | none => rw [hsuffix] at h; cases h
    | some size =>
      rw [hsuffix] at h
      cases h
      rw [← List.takeWhile_append_dropWhile (p := (· ≠ 0x2e)) (l := s), hs, hc]
      exact solid_append ht (by decide) (by decide) (solid_of_ofSuffix hsuffix)

private theorem exists_of_bind {ε α β : Type} {x : Except ε α} {f : α → Except ε β} {b : β}
    (h : x >>= f = .ok b) : ∃ a, x = .ok a ∧ f a = .ok b := by
  cases x with
  | error e => cases h
  | ok a => exact ⟨a, rfl, h⟩

private theorem exists_of_map {ε α β : Type} {x : Except ε α} {f : α → β} {b : β}
    (h : x.map f = .ok b) : ∃ a, x = .ok a := by
  cases x with
  | error e => cases h
  | ok a => exact ⟨a, rfl⟩

private theorem solid_of_register {letter : UInt8} (hl : letter.toNat < 0x80)
    (hd : (Glyph.ofByte letter).isDelimiter = false) {limit : Nat} {s : Bytes} {α : Type}
    {f : UInt8 → Except ReadError α} {a : α}
    (h : (do f (← numberBelow letter limit (← dropArrangement (Text.lower s)))) = .ok a) :
    Solid s := by
  obtain ⟨t, ht, h⟩ := exists_of_bind h
  obtain ⟨n, hn, -⟩ := exists_of_bind h
  exact Text.solid_lower.mp (solid_of_dropArrangement ht (solid_of_numberBelow hl hd hn))

theorem solid_of_vector {s : Bytes} {z : VectorRegister} (h : vector s = .ok z) :
    Solid s :=
  solid_of_register (by decide) (by decide) h

private theorem solid_of_plainPredicate {s : Bytes} {r : PredicateRegister}
    (h : plainPredicate s = .ok r) : Solid s :=
  solid_of_register (by decide) (by decide) h

theorem solid_of_general {s : Bytes} {r : GeneralRegister} (h : general s = .ok r) :
    Solid s := by
  rw [general] at h
  refine Text.solid_lower.mp ?_
  cases hnamed : namedGeneral.find? fun entry => Bytes.ofString entry.1 = Text.lower s with
  | some entry => exact solid_of_find (by decide +kernel) hnamed
  | none =>
    simp only [hnamed] at h
    split at h
    next =>
      obtain ⟨n, hn⟩ := exists_of_map h
      exact solid_of_numberBelow (by decide) (by decide) hn
    next =>
      obtain ⟨n, hn⟩ := exists_of_map h
      exact solid_of_numberBelow (by decide) (by decide) hn

private theorem solid_of_scalar {s : Bytes} {r : ScalarRegister} (h : scalar s = .ok r) :
    Solid s := by
  rw [scalar] at h
  refine Text.solid_lower.mp ?_
  cases hl : (Text.lower s).head?.filter scalarLetters.contains with
  | none => simp only [hl] at h; cases h
  | some letter =>
    simp only [hl] at h
    have hletter : letter ∈ scalarLetters :=
      List.contains_iff_mem.mp (Option.filter_eq_some_iff.mp hl).2
    have hplain : ∀ c ∈ scalarLetters,
        c.toNat < 0x80 ∧ (Glyph.ofByte c).isDelimiter = false := by decide +kernel
    obtain ⟨n, hn⟩ := exists_of_map h
    exact solid_of_numberBelow (hplain letter hletter).1 (hplain letter hletter).2 hn

private theorem solid_of_rotation {s : Bytes} {r : Rotation} (h : rotation s = .ok r) :
    Solid s := by
  rw [rotation] at h
  cases hd : Number.signedDigits? (dropHash s) with
  | none => rw [hd] at h; cases h
  | some d => exact solid_of_dropHash (Number.numeric_of_signedDigits hd)

private theorem ok_of_mapError {ε ε' α : Type} {x : Except ε α} {f : ε → ε'} {a : α}
    (h : x.mapError f = .ok a) : x = .ok a := by
  cases x with
  | error e => cases h
  | ok a' =>
    cases h
    rfl

private theorem numeric_of_readNatural {bits n : Nat} {s : Bytes}
    (h : Number.readNatural bits s = .ok n) : Numeric s :=
  Number.numeric_of_literal (ok_of_mapError h)

theorem numeric_of_readInteger {bits : Nat} {i : Int} {s : Bytes}
    (h : Number.readInteger bits s = .ok i) : Numeric s :=
  Number.numeric_of_signedLiteral (ok_of_mapError h)

private theorem solid_of_integer {bits : Nat} {s : Bytes} {i : Int} (h : integer bits s = .ok i) :
    Solid s :=
  solid_of_dropHash (numeric_of_readInteger (ok_of_mapError h))

private theorem solid_of_pattern {s : Bytes} {p : Pattern} (h : pattern s = .ok p) : Solid s := by
  rw [pattern] at h
  cases hname : Pattern.ofName? (Text.lower s) with
  | some p' =>
    obtain ⟨entry, hentry, -⟩ := Option.map_eq_some_iff.mp hname
    exact Text.solid_lower.mp (solid_of_find (by decide +kernel) hentry)
  | none =>
    rw [hname] at h
    cases hn : Number.readNatural 8 (dropHash s) with
    | error e => rw [hn] at h; cases h
    | ok n => exact solid_of_dropHash (numeric_of_readNatural hn)

private theorem solid_of_form {s : Bytes} {f : Form} (h : form s = .ok f) : Solid s := by
  rw [form] at h
  split at h
  next f' hf => exact Text.solid_lower.mp (solid_of_find (by decide +kernel) hf)
  next => cases h

private theorem solid_of_truth {s : Bytes} {b : Bool} (h : Number.readTruth s = .ok b) :
    Solid s := by
  rw [Number.readTruth] at h
  split at h
  next entry hentry =>
    have hsolid : ∀ e ∈ Number.truthTexts, Solid (Bytes.ofString e.1) := by decide +kernel
    have heq := List.find?_some hentry
    rw [← eq_of_beq heq]
    exact hsolid entry (List.mem_of_find?_eq_some hentry)
  next => cases h

private theorem eq_of_dropEnding {ending s t : Bytes} (h : dropEnding? ending s = some t) :
    s = t ++ ending := by
  rw [dropEnding?, Option.ite_none_right_eq_some] at h
  obtain ⟨⟨u, hu⟩, h⟩ := h.imp_left List.isSuffixOf_iff_suffix.mp
  obtain rfl := Option.some.inj h
  rw [← hu, List.length_append, Nat.add_sub_cancel, List.take_left]

/-- A predicate may have one slash, in front of its qualifier. -/
private theorem text_of_predicate {view : Predication} {s : Bytes} {r : PredicateRegister}
    (h : predicate view s = .ok r) : OperandText s := by
  have hqualified : ∀ {m : UInt8}, m.toNat < 0x80 → (Glyph.ofByte m).isDelimiter = false →
      ∀ t, dropEnding? [0x2f, m] (Text.lower s) = some t → plainPredicate t = .ok r →
        OperandText s :=
    fun hm hd t hend ht => .qualified (eq_of_dropEnding hend) (solid_of_plainPredicate ht) hm hd
  rw [predicate.eq_def] at h
  cases view with
  | plain => exact .solid (solid_of_plainPredicate h)
  | merging =>
    dsimp only at h
    split at h
    next t ht => exact hqualified (m := 0x6d) (by decide) (by decide) t ht h
    next => cases h
  | zeroing =>
    dsimp only at h
    split at h
    next t ht => exact hqualified (m := 0x7a) (by decide) (by decide) t ht h
    next => cases h

theorem eq_of_insideBrackets {s t : Bytes} (h : insideBrackets? s = some t) :
    s = 0x5b :: (t ++ [0x5d]) := by
  rw [insideBrackets?.eq_def] at h
  split at h
  next rest =>
    rw [Option.ite_none_right_eq_some] at h
    obtain ⟨hlast, h⟩ := h
    obtain ⟨t', rfl⟩ := List.getLast?_eq_some_iff.mp hlast
    rw [← Option.some.inj h, List.dropLast_concat]
  next => cases h

private theorem solid_of_addressOffset {s part offset : Bytes} {imm : Int}
    (h : addressOffset s (some part) = .ok (imm, offset)) (ho : Solid offset) : Solid part := by
  rw [addressOffset] at h
  split at h
  next =>
    cases hn : Number.readInteger 32 (dropHash part) with
    | error e => rw [hn] at h; cases h
    | ok i => exact solid_of_dropHash (numeric_of_readInteger hn)
  next =>
    obtain ⟨-, rfl⟩ := Prod.mk.inj (Except.ok.inj h)
    exact Text.solid_lower.mp ho

private theorem solid_of_vectorAddress {s base offset : Bytes} {count : Nat} {imm : Int}
    {a : Address} (h : vectorAddress s count base offset imm = .ok a) :
    Solid base ∧ Solid offset := by
  rw [vectorAddress] at h
  cases hz : vector base with
  | error e => rw [hz] at h; cases h
  | ok z =>
    rw [hz] at h
    dsimp only at h
    split at h
    next => cases h
    next hoffset =>
      rw [not_or, Decidable.not_not] at hoffset
      exact ⟨solid_of_vector hz, hoffset.1 ▸ solid_nil⟩

private theorem solid_of_generalAddress {base offset : Bytes} {imm : Int} {a : Address}
    (h : generalAddress base offset imm = .ok a) : Solid base ∧ Solid offset := by
  obtain ⟨r, hr, h⟩ := exists_of_bind h
  refine ⟨solid_of_general hr, ?_⟩
  split at h
  next hoffset => exact hoffset ▸ solid_nil
  next =>
    split at h
    next =>
      obtain ⟨z, hz, -⟩ := exists_of_bind h
      exact solid_of_vector hz
    next =>
      obtain ⟨r', hr', -⟩ := exists_of_bind h
      exact solid_of_general hr'

def Unmarked (s : Bytes) : Prop := ∀ c ∈ s, Text.isMarkByte c = false

theorem unmarked_of_solid {s : Bytes} (h : Solid s) : Unmarked s := by
  intro c hc
  cases hm : Text.isMarkByte c with
  | false => rfl
  | true => exact absurd hc (h.not_mem hm)

theorem unmarked_of_lower {s t : Bytes} (h : Text.lower s = t) (ht : Unmarked t) :
    Unmarked s := by
  intro c hc
  cases hm : Text.isMarkByte c with
  | false => rfl
  | true =>
    obtain ⟨hlow, hd, -⟩ := Text.ofByte_mark hm
    rw [← List.count_pos_iff, ← Text.count_lower hlow hd, List.count_pos_iff, h] at hc
    rw [← hm, ht c hc]

private theorem unmarked_of_addressOfParts {s base : Bytes} {rest : List Bytes} {a : Address}
    (h : addressOfParts s base rest = .ok a) (hlen : rest.length ≤ 2) :
    ∀ part ∈ base :: rest, Unmarked part := by
  obtain ⟨⟨imm, offset⟩, hoffset, h⟩ := exists_of_bind h
  dsimp only at h
  split at h
  next => cases h
  next hthird =>
    have hsolid : Solid base ∧ Solid offset := by
      split at h
      next => exact (solid_of_vectorAddress h).imp_left Text.solid_lower.mp
      next => exact solid_of_generalAddress h
    refine List.forall_mem_cons.mpr ⟨unmarked_of_solid hsolid.1, ?_⟩
    match rest, hlen with
    | [], _ => exact fun _ hpart => by cases hpart
    | [part], _ =>
      exact List.forall_mem_singleton.mpr
        (unmarked_of_solid (solid_of_addressOffset hoffset hsolid.2))
    | [part, third], _ =>
      refine List.forall_mem_cons.mpr
        ⟨unmarked_of_solid (solid_of_addressOffset hoffset hsolid.2), ?_⟩
      have hmul : Text.lower third = Bytes.ofString "mul vl" := by
        simpa using fun hne => hthird ⟨rfl, .inr hne⟩
      refine List.forall_mem_singleton.mpr (unmarked_of_lower hmul ?_)
      unfold Unmarked
      decide +kernel

private theorem text_of_address {s : Bytes} {a : Address} (h : address s = .ok a) :
    OperandText s := by
  rw [address] at h
  cases ht : insideBrackets? s with
  | none => rw [ht] at h; cases h
  | some t =>
    rw [ht, Option.map_some] at h
    rw [eq_of_insideBrackets ht]
    cases hparts : Text.parts t with
    | nil => rw [hparts] at h; cases h
    | cons base rest =>
      rw [hparts] at h
      dsimp only at h
      split at h
      next => cases h
      next hlen =>
        have hunmarked := unmarked_of_addressOfParts h (Nat.not_lt.mp hlen)
        refine .bracketed fun c hc hmark => ?_
        rcases Text.mem_parts hc hmark with hcomma | ⟨part, hpart, hmem⟩
        · exact hcomma
        · rw [hparts] at hpart
          rw [hunmarked part hpart c hmem] at hmark
          cases hmark

end Reader

namespace Operand

open Reader

private theorem read_nil (k : OperandKind) (o : Operand) : Operand.read k [] ≠ .ok o := by
  intro h
  cases k with
  | predicate view => cases view <;> cases h
  | _ => cases h

/-- What a text looks like that is read as an operand. -/
theorem text_of_read {k : OperandKind} {s : Bytes} {o : Operand}
    (h : Operand.read k s = .ok o) : OperandText s := by
  cases k
  all_goals obtain ⟨a, ha⟩ := exists_of_map h
  case element => exact .solid (solid_of_elementSize ha)
  case vector => exact .solid (solid_of_vector ha)
  case predicate => exact text_of_predicate ha
  case scalar => exact .solid (solid_of_scalar ha)
  case general => exact .solid (solid_of_general ha)
  case rotation => exact .solid (solid_of_rotation ha)
  case pattern => exact .solid (solid_of_pattern ha)
  case form => exact .solid (solid_of_form ha)
  case address => exact text_of_address ha
  case int32 => exact .solid (solid_of_integer ha)
  case int64 => exact .solid (solid_of_integer ha)
  case uint32 =>
    have hn := numeric_of_readNatural (ok_of_mapError ha)
    exact .solid (solid_of_dropHash hn)
  case float =>
    have hx := Number.numeric_of_floatLiteral (ok_of_mapError (ok_of_mapError ha))
    exact .solid (solid_of_dropHash hx)
  case flag => exact .solid (solid_of_truth (ok_of_mapError ha))

theorem tidy_of_read {k : OperandKind} {s : Bytes} {o : Operand}
    (h : Operand.read k s = .ok o) : Tidy s := by
  refine (text_of_read h).tidy ?_
  rintro rfl
  exact read_nil k o h

end Operand

end ScalableVector
