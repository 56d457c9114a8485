import Mathlib.Data.Nat.Bitwise
import ScalableVector.Proofs.Requirement
import ScalableVector.Proofs.RoundTrip

/-!
# Lists of extensions

A list of extensions is read element by element: it stands for the union of what its elements
stand for, and the first element that stands for nothing makes it fail. So the way a list is
written does not matter: the order of its elements, how often they stand there, their letter case
and the white space around them. The text of a set is a list for its extensions with a name.
-/

namespace ScalableVector

namespace Text

theorem Glyph.isBlank_lower (g : Glyph) : g.lower.isBlank = g.isBlank := by
  cases h : g.isDelimiter with
  | true => rw [Glyph.lower_delimiter h]
  | false =>
    have hlower := Glyph.isDelimiter_lower g
    rw [h] at hlower
    rw [Glyph.isBlank_of_isDelimiter h, Glyph.isBlank_of_isDelimiter hlower]

theorem lower_trim (s : Bytes) : lower (trim s) = trim (lower s) := by
  have hblank : Glyph.isBlank ∘ Glyph.lower = Glyph.isBlank := funext Glyph.isBlank_lower
  rw [lower, glyphs_trim, trim, glyphs_lower, trimGlyphs, trimGlyphs, List.dropWhile_map, hblank,
    ← List.map_reverse, List.dropWhile_map, hblank, ← List.map_reverse]

end Text

namespace FeatureSet

theorem empty_union (s : FeatureSet) : empty.union s = s := by
  simp [union, empty]

theorem union_empty (s : FeatureSet) : s.union empty = s := by
  simp [union, empty]

theorem union_assoc (a b c : FeatureSet) : (a.union b).union c = a.union (b.union c) := by
  simp only [union, UInt64.or_assoc]

theorem union_left_comm (a b c : FeatureSet) : a.union (b.union c) = b.union (a.union c) := by
  rw [← union_assoc, ← union_assoc, union, union, union, union, UInt64.or_comm a.bits]

theorem union_union_self (a b : FeatureSet) : a.union (a.union b) = a.union b := by
  rw [← union_assoc, union, union, UInt64.or_self, union]

private theorem and_or (a b c : UInt64) : a &&& (b ||| c) = a &&& b ||| a &&& c := by
  apply UInt64.toBitVec_inj.mp
  simp only [UInt64.toBitVec_and, UInt64.toBitVec_or]
  exact BitVec.and_or_distrib_left

theorem includes_union {a b c : FeatureSet} (hb : a.includes b) (hc : a.includes c) :
    a.includes (b.union c) := by
  rw [includes_iff] at *
  rw [union, and_or, hb, hc]

/-- The names that an element of a list can have, with what they stand for. -/
def vocabulary : List (String × FeatureSet) :=
  ("", empty) :: ("none", empty) :: ("all", all) :: named

/-- The element stands for the extensions: without the white space around it and in lower case it
is a name for them. -/
def Names (e : Bytes) (s : FeatureSet) : Prop :=
  ∃ entry ∈ vocabulary, Text.lower (Text.trim e) = Bytes.ofString entry.1 ∧ s = entry.2

def Known (e : Bytes) : Prop := ∃ s, Names e s

theorem ofName?_vocabulary :
    ∀ entry ∈ vocabulary, ofName? (Bytes.ofString entry.1) = some entry.2 := by
  decide

theorem mem_vocabulary {name : Bytes} {s : FeatureSet} (h : ofName? name = some s) :
    ∃ entry ∈ vocabulary, name = Bytes.ofString entry.1 ∧ s = entry.2 := by
  unfold ofName? at h
  split at h
  · rename_i hidle
    cases h
    rcases hidle with hempty | hnone
    · exact ⟨("", empty), by decide, List.isEmpty_iff.mp hempty, rfl⟩
    · exact ⟨("none", empty), by decide, hnone, rfl⟩
  · split at h
    · rename_i hall
      cases h
      exact ⟨("all", all), by decide, hall, rfl⟩
    · obtain ⟨entry, hfind, rfl⟩ := Option.map_eq_some_iff.mp h
      have hname := List.find?_some hfind
      simp only [decide_eq_true_eq] at hname
      have hmem := List.mem_of_find?_eq_some hfind
      exact ⟨entry, by simp [vocabulary, hmem], hname.symm, rfl⟩

theorem ofName?_normalName {e : Bytes} {s : FeatureSet} :
    ofName? (normalName e) = some s ↔ Names e s := by
  constructor
  · exact mem_vocabulary
  · rintro ⟨entry, hentry, hname, rfl⟩
    rw [normalName, hname, ofName?_vocabulary entry hentry]

theorem Names.unique {e : Bytes} {s t : FeatureSet} (hs : Names e s) (ht : Names e t) : s = t := by
  rw [← ofName?_normalName] at hs ht
  exact Option.some.inj (hs.symm.trans ht)

theorem ofElements_cons_of_names {e : Bytes} {t : FeatureSet} (h : Names e t) (es : List Bytes) :
    ofElements (e :: es) = (ofElements es).map t.union := by
  rw [ofElements, ofName?_normalName.mpr h]

theorem ofElements_cons_of_unknown {e : Bytes} (h : ¬Known e) (es : List Bytes) :
    ofElements (e :: es) = .error (normalName e) := by
  cases hname : ofName? (normalName e) with
  | none => rw [ofElements, hname]
  | some s => exact absurd ⟨s, ofName?_normalName.mp hname⟩ h

theorem ofElements_cons_eq_ok_iff {e : Bytes} {es : List Bytes} {s : FeatureSet} :
    ofElements (e :: es) = .ok s ↔
      ∃ t u, Names e t ∧ ofElements es = .ok u ∧ s = t.union u := by
  by_cases hknown : Known e
  · obtain ⟨t, ht⟩ := hknown
    rw [ofElements_cons_of_names ht]
    constructor
    · intro h
      cases hes : ofElements es with
      | error name =>
        rw [hes] at h
        cases h
      | ok u =>
        rw [hes] at h
        cases h
        exact ⟨t, u, ht, rfl, rfl⟩
    · rintro ⟨t', u, ht', hu, rfl⟩
      rw [hu, ht.unique ht']
      rfl
  · rw [ofElements_cons_of_unknown hknown]
    constructor
    · intro h
      cases h
    · rintro ⟨t, -, ht, -⟩
      exact absurd ⟨t, ht⟩ hknown

theorem ofElements_append_eq_ok_iff {es fs : List Bytes} {s : FeatureSet} :
    ofElements (es ++ fs) = .ok s ↔
      ∃ t u, ofElements es = .ok t ∧ ofElements fs = .ok u ∧ s = t.union u := by
  induction es generalizing s with
  | nil => simp [ofElements, empty_union]
  | cons e es ih =>
    simp only [List.cons_append, ofElements_cons_eq_ok_iff, ih]
    constructor
    · rintro ⟨t, -, ht, ⟨u, v, hu, hv, rfl⟩, rfl⟩
      exact ⟨t.union u, v, ⟨t, u, ht, hu, rfl⟩, hv, (union_assoc t u v).symm⟩
    · rintro ⟨-, v, ⟨t, u, ht, hu, rfl⟩, hv, rfl⟩
      exact ⟨t, u.union v, ht, ⟨u, v, hu, hv, rfl⟩, union_assoc t u v⟩

theorem ofElements_perm {es fs : List Bytes} (h : es.Perm fs) {s : FeatureSet} :
    ofElements es = .ok s ↔ ofElements fs = .ok s := by
  induction h generalizing s with
  | nil => rfl
  | cons e _ ih => simp only [ofElements_cons_eq_ok_iff, ih]
  | swap e f es =>
    -- the two orders can fail with different names, but they fail together
    simp only [ofElements_cons_eq_ok_iff]
    constructor
    · rintro ⟨t, -, ht, ⟨u, v, hu, hv, rfl⟩, rfl⟩
      exact ⟨u, t.union v, hu, ⟨t, v, ht, hv, rfl⟩, union_left_comm t u v⟩
    · rintro ⟨u, -, hu, ⟨t, v, ht, hv, rfl⟩, rfl⟩
      exact ⟨t, u.union v, ht, ⟨u, v, hu, hv, rfl⟩, union_left_comm u t v⟩
  | trans _ _ ih ih' => exact ih.trans ih'

theorem ofElements_eq_error_iff {es : List Bytes} {name : Bytes} :
    ofElements es = .error name ↔
      ∃ front e back, es = front ++ e :: back ∧ (∀ f ∈ front, Known f) ∧ ¬Known e ∧
        name = Text.lower (Text.trim e) := by
  constructor
  · intro h
    induction es with
    | nil => cases h
    | cons e es ih =>
      by_cases hknown : Known e
      · obtain ⟨t, ht⟩ := hknown
        rw [ofElements_cons_of_names ht] at h
        cases hes : ofElements es with
        | ok u =>
          rw [hes] at h
          cases h
        | error other =>
          rw [hes] at h
          cases h
          obtain ⟨front, f, back, rfl, hfront, hf⟩ := ih hes
          exact ⟨e :: front, f, back, rfl, List.forall_mem_cons.mpr ⟨⟨t, ht⟩, hfront⟩, hf⟩
      · rw [ofElements_cons_of_unknown hknown] at h
        cases h
        exact ⟨[], e, es, rfl, by simp, hknown, rfl⟩
  · rintro ⟨front, e, back, rfl, hfront, hknown, rfl⟩
    induction front with
    | nil => exact ofElements_cons_of_unknown hknown back
    | cons f front ih =>
      obtain ⟨⟨t, ht⟩, hfront⟩ := List.forall_mem_cons.mp hfront
      rw [List.cons_append, ofElements_cons_of_names ht, ih hfront]
      rfl

/-- The elements are those of another list in another order, repeated, in another letter case,
with white space around them, and with further elements that stand for nothing. -/
inductive Respelled : List Bytes → List Bytes → Prop
  | permuted {es fs : List Bytes} (h : es.Perm fs) : Respelled es fs
  | repeated (e : Bytes) (es : List Bytes) : Respelled (e :: es) (e :: e :: es)
  | recased {e f : Bytes} (h : Text.lower e = Text.lower f) (es : List Bytes) :
    Respelled (e :: es) (f :: es)
  | padded {e f : Bytes} (h : Text.Padded e f) (es : List Bytes) : Respelled (e :: es) (f :: es)
  | idle {e : Bytes} (h : e = [] ∨ e = Bytes.ofString "none") (es : List Bytes) :
    Respelled es (e :: es)
  | symm {es fs : List Bytes} (h : Respelled es fs) : Respelled fs es
  | trans {es fs gs : List Bytes} (h : Respelled es fs) (h' : Respelled fs gs) : Respelled es gs

theorem ofElements_cons_congr {e f : Bytes}
    (h : Text.lower (Text.trim e) = Text.lower (Text.trim f)) (es : List Bytes) :
    ofElements (e :: es) = ofElements (f :: es) := by
  rw [ofElements, ofElements, normalName, normalName, h]

theorem ofElements_cons_of_idle {e : Bytes} (h : e = [] ∨ e = Bytes.ofString "none")
    (es : List Bytes) : ofElements (e :: es) = ofElements es := by
  have hnames : Names e empty := by
    rcases h with rfl | rfl
    · exact ⟨("", empty), by decide, by decide, rfl⟩
    · exact ⟨("none", empty), by decide, by decide +kernel, rfl⟩
  rw [ofElements_cons_of_names hnames, funext empty_union]
  cases ofElements es <;> rfl

theorem Respelled.ofElements {es fs : List Bytes} (h : Respelled es fs) {s : FeatureSet} :
    ofElements es = .ok s ↔ ofElements fs = .ok s := by
  induction h generalizing s with
  | permuted h => exact ofElements_perm h
  | repeated e es =>
    simp only [ofElements_cons_eq_ok_iff]
    constructor
    · rintro ⟨t, u, ht, hu, rfl⟩
      exact ⟨t, t.union u, ht, ⟨t, u, ht, hu, rfl⟩, (union_union_self t u).symm⟩
    · rintro ⟨t, -, ht, ⟨t', u, ht', hu, rfl⟩, rfl⟩
      cases ht.unique ht'
      exact ⟨t, u, ht, hu, union_union_self t u⟩
  | @recased e f h es =>
    have hname : Text.lower (Text.trim e) = Text.lower (Text.trim f) := by
      rw [Text.lower_trim, h, Text.lower_trim]
    rw [ofElements_cons_congr hname]
  | @padded e f h es =>
    have hname : Text.lower (Text.trim e) = Text.lower (Text.trim f) := by rw [h.trim_eq]
    rw [ofElements_cons_congr hname]
  | idle h es => rw [ofElements_cons_of_idle h]
  | symm _ ih => exact ih.symm
  | trans _ _ ih ih' => exact ih.trans ih'

theorem all_includes_ofElements {es : List Bytes} {s : FeatureSet} (h : ofElements es = .ok s) :
    all.includes s := by
  induction es generalizing s with
  | nil =>
    cases h
    decide
  | cons e es ih =>
    obtain ⟨t, u, ⟨entry, hentry, -, rfl⟩, hu, rfl⟩ := ofElements_cons_eq_ok_iff.mp h
    have hall : ∀ entry ∈ vocabulary, all.includes entry.2 = true := by decide
    exact includes_union (hall entry hentry) (ih hu)

section RoundTrip

def unionOf (entries : List (String × FeatureSet)) : FeatureSet :=
  entries.foldr (fun entry s => entry.2.union s) empty

theorem ofString_intercalate (names : List String) :
    Bytes.ofString (",".intercalate names) =
      List.intercalate [0x2c] (names.map Bytes.ofString) := by
  induction names with
  | nil => rfl
  | cons name names ih =>
    cases names with
    | nil => simp
    | cons next names =>
      rw [String.intercalate_cons_cons, ofString_append, ofString_append, ih]
      simp only [List.map_cons, List.intercalate_cons_cons]
      rfl

theorem names_named : ∀ entry ∈ named, Names (Bytes.ofString entry.1) entry.2 := by
  have hnormal : ∀ entry ∈ named,
      Text.lower (Text.trim (Bytes.ofString entry.1)) = Bytes.ofString entry.1 := by
    decide +kernel
  intro entry hentry
  exact ⟨entry, by simp [vocabulary, hentry], hnormal entry hentry, rfl⟩

theorem ofElements_named {entries : List (String × FeatureSet)} (h : entries ⊆ named) :
    ofElements (entries.map fun entry => Bytes.ofString entry.1) = .ok (unionOf entries) := by
  induction entries with
  | nil => rfl
  | cons entry entries ih =>
    obtain ⟨hentry, hentries⟩ := List.cons_subset.mp h
    rw [List.map_cons, ofElements_cons_of_names (names_named entry hentry), ih hentries]
    rfl

/-- An extension with a name is a single bit, so a set holds it or has nothing of it. -/
theorem includes_or_disjoint (s : FeatureSet) {entry : String × FeatureSet}
    (h : entry ∈ named) : s.includes entry.2 ∨ s.bits &&& entry.2.bits = 0 := by
  have hbit : ∀ entry ∈ named, ∃ k, entry.2.bits.toNat = 2 ^ k := by
    simp only [named, List.forall_mem_cons]
    exact ⟨⟨0, rfl⟩, ⟨1, rfl⟩, ⟨2, rfl⟩, by simp⟩
  obtain ⟨k, hk⟩ := hbit entry h
  have hand : (s.bits &&& entry.2.bits).toNat =
      (s.bits.toNat.testBit k).toNat * entry.2.bits.toNat := by
    rw [UInt64.toNat_and, hk, Nat.and_two_pow]
  cases htest : s.bits.toNat.testBit k with
  | true =>
    left
    rw [htest, Bool.toNat_true, Nat.one_mul] at hand
    exact includes_iff.mpr (UInt64.toNat_inj.mp hand)
  | false =>
    right
    rw [htest, Bool.toNat_false, Nat.zero_mul] at hand
    exact UInt64.toNat_inj.mp hand

theorem unionOf_filter (s : FeatureSet) {entries : List (String × FeatureSet)}
    (h : entries ⊆ named) :
    unionOf (entries.filter fun entry => s.includes entry.2) =
      ⟨s.bits &&& (unionOf entries).bits⟩ := by
  induction entries with
  | nil => simp [unionOf, empty]
  | cons entry entries ih =>
    obtain ⟨hentry, hentries⟩ := List.cons_subset.mp h
    have hsplit : (⟨s.bits &&& (unionOf (entry :: entries)).bits⟩ : FeatureSet) =
        union ⟨s.bits &&& entry.2.bits⟩ ⟨s.bits &&& (unionOf entries).bits⟩ :=
      congrArg mk (and_or _ _ _)
    rw [hsplit, ← ih hentries, List.filter_cons]
    by_cases hin : s.includes entry.2
    · rw [if_pos hin, includes_iff.mp hin]
      rfl
    · rw [if_neg hin, (includes_or_disjoint s hentry).resolve_left hin]
      exact (empty_union _).symm

theorem parse_text (s : FeatureSet) :
    parse (Bytes.ofString s.text) = .ok ⟨s.bits &&& all.bits⟩ := by
  have hcomma : ∀ entry ∈ named, 0x2c ∉ Bytes.ofString entry.1 := by decide
  have hsub : (named.filter fun entry => s.includes entry.2) ⊆ named := List.filter_subset_self _
  have hall : unionOf named = all := by decide
  rw [← hall, ← unionOf_filter s (List.Subset.refl named), text]
  -- without an extension that has a name the text is a name for none of them
  cases hentries : named.filter fun entry => s.includes entry.2 with
  | nil => decide +kernel
  | cons entry entries =>
    rw [hentries] at hsub
    rw [← ofElements_named hsub, List.map_cons]
    simp only [parse, ofString_intercalate]
    rw [List.splitOn_intercalate]
    · rw [List.map_cons, List.map_map]
      rfl
    · intro name hname
      simp only [← List.map_cons, List.map_map, List.mem_map] at hname
      obtain ⟨entry', hentry', rfl⟩ := hname
      exact hcomma entry' (hsub hentry')
    · simp

end RoundTrip

theorem splitOn_append (a b : Bytes) :
    (a ++ 0x2c :: b).splitOn 0x2c = a.splitOn 0x2c ++ b.splitOn 0x2c := by
  simp only [List.splitOn_eq_splitOnP]
  exact List.splitOnP_append_cons a b (by decide)

/-- How lists of extensions are read. A list without a comma is one element. Two lists with a comma
between them are read if and only if both are, as the union of what they are read as. A list that
is not read has an unknown element: the first of them is named, and no extension is reported. A
list that is read is read alike if its elements are written otherwise. It stands for extensions
with a name, and the text of a set is read as the extensions of the set with a name. -/
theorem lists_read_as_unions :
    (∀ e s, 0x2c ∉ e → (parse e = .ok s ↔ Names e s)) ∧
    (∀ a b s, parse (a ++ 0x2c :: b) = .ok s ↔
      ∃ t u, parse a = .ok t ∧ parse b = .ok u ∧ s = t.union u) ∧
    (∀ list name, parse list = .error name ↔
      ∃ front e back, list.splitOn 0x2c = front ++ e :: back ∧ (∀ f ∈ front, Known f) ∧
        ¬Known e ∧ name = Text.lower (Text.trim e)) ∧
    (∀ list name, parse list = .error name →
      report (parse list) = (empty, some ("unknown feature " ++ Text.quote name))) ∧
    (∀ a b s, Respelled (a.splitOn 0x2c) (b.splitOn 0x2c) →
      (parse a = .ok s ↔ parse b = .ok s)) ∧
    (∀ list s, parse list = .ok s → all.includes s) ∧
    (∀ s : FeatureSet, parse (Bytes.ofString s.text) = .ok ⟨s.bits &&& all.bits⟩) := by
  refine ⟨?_, ?_, ?_, ?_, ?_, ?_, parse_text⟩
  · intro e s he
    rw [parse, List.splitOn_eq_singleton he, ofElements_cons_eq_ok_iff]
    constructor
    · rintro ⟨t, u, ht, hu, rfl⟩
      cases hu
      rwa [union_empty]
    · intro hs
      exact ⟨s, empty, hs, rfl, (union_empty s).symm⟩
  · intro a b s
    rw [parse, splitOn_append]
    exact ofElements_append_eq_ok_iff
  · intro list name
    exact ofElements_eq_error_iff
  · intro list name h
    rw [h]
    rfl
  · intro a b s h
    exact h.ofElements
  · intro list s h
    exact all_includes_ofElements h

/-- Reordered, repeated, in capitals, one of them dotted, and after a wide space. -/
private theorem respelled_pair :
    Respelled ((Bytes.ofString "sve2,bitperm").splitOn 0x2c)
      ((Bytes.ofString "\u2003B\u0130TPERM,none,SVE2,sve2").splitOn 0x2c) := by
  have hfrom : (Bytes.ofString "sve2,bitperm").splitOn 0x2c =
      [Bytes.ofString "sve2", Bytes.ofString "bitperm"] := by decide
  have hto : (Bytes.ofString "\u2003B\u0130TPERM,none,SVE2,sve2").splitOn 0x2c =
      [Bytes.ofString "\u2003B\u0130TPERM", Bytes.ofString "none", Bytes.ofString "SVE2",
        Bytes.ofString "sve2"] := by decide
  have hdotted : Text.lower (Bytes.ofString "bitperm") =
      Text.lower (Bytes.ofString "B\u0130TPERM") := by decide +kernel
  have hcapitals : Text.lower (Bytes.ofString "sve2") = Text.lower (Bytes.ofString "SVE2") := by
    decide +kernel
  have hwide : Text.Padded (Bytes.ofString "B\u0130TPERM") (Bytes.ofString "\u2003B\u0130TPERM") :=
    ⟨Bytes.ofString "\u2003", [], by unfold Text.Blank; decide +kernel, Text.blank_nil, by decide⟩
  rw [hfrom, hto]
  apply Respelled.trans (.permuted (.swap _ _ _))
  apply Respelled.trans (.recased hdotted _)
  apply Respelled.trans (.padded hwide _)
  apply Respelled.trans (.permuted (.swap _ _ _))
  apply Respelled.trans (.repeated _ _)
  apply Respelled.trans (.recased hcapitals _)
  apply Respelled.trans (.idle (.inr rfl) _)
  exact .permuted (@List.perm_append_comm _ [_, _, _] [_])

theorem lists_read_as_unions_respelled :
    parse (Bytes.ofString "\tI8mm") = .ok i8mm ∧
      parse (Bytes.ofString "\u2003B\u0130TPERM,none,SVE2,sve2") = .ok (sve2.union bitPerm) ∧
      all.includes (sve2.union bitPerm) ∧
      report (parse (Bytes.ofString "sve2, FP16,x")) =
        (empty, some ("unknown feature " ++ Text.quote (Bytes.ofString "fp16"))) := by
  obtain ⟨helement, -, -, hreport, hrespelled, hall, htext⟩ := lists_read_as_unions
  have hpair : parse (Bytes.ofString "sve2,bitperm") = .ok (sve2.union bitPerm) :=
    htext (sve2.union bitPerm)
  refine ⟨?_, (hrespelled _ _ _ respelled_pair).mp hpair, hall _ _ hpair, ?_⟩
  · exact (helement _ _ (by decide)).mpr ⟨("i8mm", i8mm), by decide, by decide +kernel, rfl⟩
  · exact hreport _ _ (by decide +kernel)

end FeatureSet

end ScalableVector
