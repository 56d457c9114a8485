import ScalableVector.Emitter.Basic
import ScalableVector.Instruction.Catalogue
import ScalableVector.Segment.Basic

/-!
# Runs of an emitter

What a run writes is settled call by call: every call has a result of its own, on an emitter that
has done nothing else, and a run writes the words of these results up to the first rejection.
-/

namespace ScalableVector

/-- Sinks whose position counts the bytes of the words that are written. -/
class LawfulSink (σ : Type) [Sink σ] : Prop where
  position_append (s : σ) (w : Word) : Sink.position (Sink.append s w) = Sink.position s + 4

instance : LawfulSink WordLog where
  position_append s w := by
    change ((4 * (s.words.push w).size : Nat) : Int) = (4 * s.words.size : Nat) + 4
    rw [Array.size_push]
    omega

instance : LawfulSink SegmentSink where
  position_append s w := by
    obtain ⟨system, ⟨memory, size⟩, buffer⟩ := s
    -- the word counts as written also where the memory could not be enlarged
    have hs : (Segment.writeWord system ⟨memory, size⟩ w).2.size = size + 4 := by
      simp only [Segment.writeWord]
      cases Segment.grown system memory (size + 4) <;> rfl
    change ((Segment.writeWord system ⟨memory, size⟩ w).2.size : Int) - buffer.offset =
      (size : Int) - buffer.offset + 4
    rw [hs]
    omega

namespace Call

/-- A call that is made on an emitter of its own, over an empty log. -/
def solo (c : Call) (features : FeatureSet) : Emitter WordLog :=
  (Emitter.new ⟨features, false⟩ WordLog.empty).emit c

def words (features : FeatureSet) (c : Call) : List Word :=
  (c.solo features).sink.words.toList

def error (features : FeatureSet) (c : Call) : Option Rejection := (c.solo features).rejection

/-- The call writes the word on an emitter of its own that allows all extensions. -/
def Accepted (c : Call) (w : Word) : Prop := c.words .all = [w]

instance (c : Call) (w : Word) : Decidable (c.Accepted w) := inferInstanceAs (Decidable (_ = _))

theorem solo_of_ok {c : Call} {features : FeatureSet} {w : Word}
    (h : c.encode features = .ok w) : c.words features = [w] ∧ c.error features = none := by
  have hs : c.solo features = ⟨⟨features, false⟩, ⟨#[w]⟩, none, #[]⟩ := by
    simp only [solo, Emitter.new, Emitter.emit, h]
    rfl
  rw [words, error, hs]
  exact ⟨rfl, rfl⟩

theorem solo_of_error {c : Call} {features : FeatureSet} {r : Rejection}
    (h : c.encode features = .error r) : c.words features = [] ∧ c.error features = some r := by
  have hs : c.solo features = ⟨⟨features, false⟩, .empty, some r, #[]⟩ := by
    simp only [solo, Emitter.new, Emitter.emit, h]
    rfl
  rw [words, error, hs]
  exact ⟨rfl, rfl⟩

theorem words_or_error (features : FeatureSet) (c : Call) :
    (∃ w, c.words features = [w] ∧ c.error features = none) ∨
      (∃ r, c.words features = [] ∧ c.error features = some r) := by
  cases h : c.encode features with
  | ok w => exact Or.inl ⟨w, solo_of_ok h⟩
  | error r => exact Or.inr ⟨r, solo_of_error h⟩

theorem accepted_iff {c : Call} {w : Word} : c.Accepted w ↔ c.encode .all = .ok w := by
  rw [Accepted]
  cases h : c.encode .all with
  | ok v => simp [(solo_of_ok h).1]
  | error r => simp [(solo_of_error h).1]

end Call

namespace Emitter

variable {σ : Type} [Sink σ]

theorem emit_of_rejected {e : Emitter σ} {r : Rejection} (h : e.rejection = some r) (c : Call) :
    e.emit c = e := by
  obtain ⟨options, sink, rejection, events⟩ := e
  cases h
  rfl

/-- What one call does to an emitter that holds no rejection, told by the result of its own. -/
theorem emit_of_open {e : Emitter σ} (h : e.rejection = none) (c : Call) :
    (e.emit c).options = e.options ∧
      (e.emit c).sink = (c.words e.options.features).foldl Sink.append e.sink ∧
      (e.emit c).rejection = c.error e.options.features := by
  obtain ⟨options, sink, rejection, events⟩ := e
  cases h
  cases hc : c.encode options.features with
  | ok w =>
    rw [(Call.solo_of_ok hc).1, (Call.solo_of_ok hc).2, emit, hc]
    exact ⟨rfl, rfl, rfl⟩
  | error r =>
    rw [(Call.solo_of_error hc).1, (Call.solo_of_error hc).2, emit, hc]
    exact ⟨rfl, rfl, rfl⟩

/-- The calls before the first one that has an error of its own. -/
def acceptedCalls (features : FeatureSet) (calls : List Call) : List Call :=
  calls.takeWhile fun c => (c.error features).isNone

theorem run_of_rejected {e : Emitter σ} {r : Rejection} (h : e.rejection = some r)
    (calls : List Call) : e.run calls = e := by
  induction calls with
  | nil => rfl
  | cons c cs ih => rw [run, List.foldl_cons, emit_of_rejected h, ← run, ih]

theorem acceptedCalls_cons {features : FeatureSet} {c : Call} (cs : List Call)
    (h : c.error features = none) :
    acceptedCalls features (c :: cs) = c :: acceptedCalls features cs := by
  simp [acceptedCalls, h]

theorem acceptedCalls_cons_of_error {features : FeatureSet} {c : Call} {r : Rejection}
    (cs : List Call) (h : c.error features = some r) :
    acceptedCalls features (c :: cs) = [] := by
  simp [acceptedCalls, h]

theorem run_of_open {e : Emitter σ} (h : e.rejection = none) (calls : List Call) :
    (e.run calls).sink =
        ((acceptedCalls e.options.features calls).flatMap
          (Call.words e.options.features)).foldl Sink.append e.sink ∧
      (e.run calls).rejection =
        calls[(acceptedCalls e.options.features calls).length]?.bind
          (Call.error e.options.features) := by
  induction calls generalizing e with
  | nil => exact ⟨rfl, h⟩
  | cons c cs ih =>
    obtain ⟨ho, hs, hr⟩ := emit_of_open h c
    rw [run, List.foldl_cons, ← run]
    cases hc : c.error e.options.features with
    | none =>
      obtain ⟨ihs, ihr⟩ := ih (hr.trans hc)
      rw [ho] at ihs ihr
      rw [acceptedCalls_cons cs hc, ihs, ihr, hs, List.flatMap_cons, List.foldl_append]
      exact ⟨rfl, rfl⟩
    | some r =>
      have hw : c.words e.options.features = [] := by
        rcases Call.words_or_error e.options.features c with ⟨w, _, hn⟩ | ⟨_, hw, _⟩
        · simp [hc] at hn
        · exact hw
      rw [run_of_rejected (hr.trans hc), acceptedCalls_cons_of_error cs hc, hs, hw, hr]
      exact ⟨rfl, rfl⟩

private theorem length_words_of_accepted (features : FeatureSet) (calls : List Call) :
    ((acceptedCalls features calls).flatMap (Call.words features)).length =
      (acceptedCalls features calls).length := by
  induction calls with
  | nil => rfl
  | cons c cs ih =>
    rcases Call.words_or_error features c with ⟨w, hw, hn⟩ | ⟨r, _, hr⟩
    · rw [acceptedCalls_cons cs hn, List.flatMap_cons, hw, List.length_append, ih,
        List.length_cons, List.length_cons, List.length_nil]
      omega
    · rw [acceptedCalls_cons_of_error cs hr]
      rfl

theorem position_foldl [LawfulSink σ] (s : σ) (ws : List Word) :
    Sink.position (ws.foldl Sink.append s) = Sink.position s + 4 * ws.length := by
  induction ws generalizing s with
  | nil => simp
  | cons w ws ih =>
    rw [List.foldl_cons, ih, LawfulSink.position_append, List.length_cons]
    omega

theorem acceptedCalls_take (features : FeatureSet) (calls : List Call) (n : Nat) :
    acceptedCalls features (calls.take n) = (acceptedCalls features calls).take n :=
  (List.take_takeWhile ..).symm

theorem error_after_accepted (features : FeatureSet) (calls : List Call)
    (h : (acceptedCalls features calls).length < calls.length) :
    ∃ r, (calls[(acceptedCalls features calls).length]).error features = some r := by
  induction calls with
  | nil => simp at h
  | cons c cs ih =>
    cases hc : c.error features with
    | none =>
      simp only [acceptedCalls_cons cs hc, List.length_cons, Nat.add_lt_add_iff_right,
        List.getElem_cons_succ] at h ⊢
      exact ih h
    | some r =>
      simp only [acceptedCalls_cons_of_error cs hc, List.length_nil, List.getElem_cons_zero]
      exact ⟨r, hc⟩

private theorem solo_of_accepted {features : FeatureSet} {calls : List Call} {c : Call}
    (hc : c ∈ acceptedCalls features calls) :
    ∃ w, c.words features = [w] ∧ c.error features = none := by
  have hn := List.all_eq_true.mp List.all_takeWhile c hc
  rcases Call.words_or_error features c with h | ⟨r, _, hr⟩
  · exact h
  · simp [hr] at hn

private theorem run_new_take (options : EmitterOptions) (sink : σ) (calls : List Call) (n : Nat) :
    let good := acceptedCalls options.features calls
    ((Emitter.new options sink).run (calls.take n)).sink =
        ((good.take n).flatMap (Call.words options.features)).foldl Sink.append sink ∧
      ((Emitter.new options sink).run (calls.take n)).rejection =
        (calls.take n)[(good.take n).length]?.bind (Call.error options.features) := by
  have h := run_of_open (e := Emitter.new options sink) rfl (calls.take n)
  rw [acceptedCalls_take] at h
  exact h

/-- A run is the fold of its calls taken alone, up to the first rejection. After `n` calls the
sink has received the words that the calls before the first rejection write alone, one for each;
the error is none before the first rejected call and its own error from then on; later calls write
nothing; the position counts four bytes a word; and a new emitter starts there without an error. -/
theorem run_eq_solo_results [LawfulSink σ] (options : EmitterOptions) (sink : σ)
    (calls : List Call) (n : Nat) :
    let good := acceptedCalls options.features calls
    let after := fun n => (Emitter.new options sink).run (calls.take n)
    let words := (good.take n).flatMap (Call.words options.features)
    (∀ c ∈ good, ∃ w, c.words options.features = [w] ∧ c.error options.features = none) ∧
      words.length = min n good.length ∧
      (after n).sink = words.foldl Sink.append sink ∧
      (n ≤ good.length → (after n).rejection = none) ∧
      (∀ h : good.length < calls.length, good.length < n →
        ∃ r, (calls[good.length]).error options.features = some r ∧
          (after n).rejection = some r) ∧
      (good.length ≤ n → (after n).sink = (after good.length).sink) ∧
      (after n).offset = Sink.position sink + 4 * words.length ∧
      ∀ options', (Emitter.new options' (after n).sink).rejection = none ∧
        (Emitter.new options' (after n).sink).offset = (after n).offset := by
  intro good after words
  have hrun := run_new_take options sink calls
  have hlen : words.length = (good.take n).length := by
    have h := length_words_of_accepted options.features (calls.take n)
    rwa [acceptedCalls_take] at h
  refine ⟨fun c hc => solo_of_accepted hc, ?_, (hrun n).1, ?_, ?_, ?_, ?_,
    fun options' => ⟨rfl, rfl⟩⟩
  · rw [hlen, List.length_take]
  · intro hn
    have hz : (calls.take n)[(good.take n).length]? = none := by
      rw [List.getElem?_eq_none_iff, List.length_take, List.length_take]
      omega
    rw [(hrun n).2, hz]
    rfl
  · intro h hn
    obtain ⟨r, hr⟩ := error_after_accepted options.features calls h
    have hz : (calls.take n)[(good.take n).length]? = some calls[good.length] := by
      rw [List.take_of_length_le (Nat.le_of_lt hn), List.getElem?_take_of_lt hn,
        List.getElem?_eq_getElem h]
    refine ⟨r, hr, ?_⟩
    rw [(hrun n).2, hz]
    exact hr
  · intro hn
    rw [(hrun n).1, (hrun good.length).1, List.take_of_length_le hn, List.take_length]
  · rw [offset, (hrun n).1]
    exact position_foldl sink words

private def threeCalls : List Call :=
  let add : Call := ⟨Unpredicated.arithmetic.instruction ⟨"Add", "add", 0x04200000⟩,
    [.element .single, .vector ⟨0⟩, .vector ⟨1⟩, .vector ⟨2⟩], rfl⟩
  let divide : Call := ⟨Predicated.division.instruction ⟨"Sdiv", "sdiv", 0x04140000⟩,
    [.element .byte, .vector ⟨0⟩, .predicate .merging ⟨0⟩, .vector ⟨0⟩, .vector ⟨1⟩], rfl⟩
  [add, divide, add]

theorem run_threeCalls :
    (acceptedCalls .all threeCalls).length = 1 ∧
      ((Emitter.new .standard (⟨#[7]⟩ : WordLog)).run (threeCalls.take 3)).sink.words =
        #[7, 0x04a20020] ∧
      ((Emitter.new .standard (⟨#[7]⟩ : WordLog)).run (threeCalls.take 3)).offset = 8 := by
  obtain ⟨_, _, hs, _, _, _, ho, _⟩ :=
    run_eq_solo_results .standard (⟨#[7]⟩ : WordLog) threeCalls 3
  refine ⟨by decide +kernel, ?_, ?_⟩
  · rw [hs]
    decide +kernel
  · rw [ho]
    decide +kernel

end Emitter

end ScalableVector
