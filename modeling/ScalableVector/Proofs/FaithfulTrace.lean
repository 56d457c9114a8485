import ScalableVector.Proofs.Hexadecimal
import ScalableVector.Proofs.SinkAgreement

/-!
# Traces tell what was written

The trace of a run has an entry for each word that goes to the sink, with the position that the sink
had just before, and a last entry if a call is rejected. To say which words go to a sink of any
kind, the sink is watched: a record is kept beside it, of which the sink and the emitter know
nothing.
-/

namespace ScalableVector

/-- A sink, and a record of the words that were written to it with the positions before. -/
structure Watched (σ : Type) where
  sink : σ
  writes : List (Int × Word)

namespace Watched

variable {σ : Type} [Sink σ]

def start (sink : σ) : Watched σ := ⟨sink, []⟩

instance : Sink (Watched σ) where
  position s := Sink.position s.sink
  append s w := ⟨Sink.append s.sink w, s.writes ++ [(Sink.position s.sink, w)]⟩

end Watched

namespace Trace

theorem value_of_harmless {s : String} (h : ∀ c ∈ s.toList, isHarmless c = true) : value s = s := by
  rw [value, if_pos (List.all_eq_true.mpr h)]

theorem harmless_decimal (n : Nat) {c : Char} (hc : c ∈ (Text.decimal n).toList) :
    isHarmless c = true := by
  rw [Text.decimal, String.toList_ofList] at hc
  have hdigit := Nat.isDigit_of_mem_toDigits (by decide) (by decide) hc
  simp [isHarmless, Char.isAlphanum, hdigit]

theorem value_signedDecimal (i : Int) : value (Text.signedDecimal i) = Text.signedDecimal i := by
  apply value_of_harmless
  intro c hc
  cases i with
  | ofNat n => exact harmless_decimal n hc
  | negSucc n =>
    rw [Text.signedDecimal, String.toList_append] at hc
    rcases List.mem_append.mp hc with hc | hc
    · rw [List.mem_singleton.mp hc]
      decide
    · exact harmless_decimal (n + 1) hc

private theorem harmless_mark : "0x".toList.all isHarmless = true := by decide

private theorem harmless_hexDigits : "0123456789abcdef".toList.all isHarmless = true := by decide

theorem value_word (w : Word) : value ("0x" ++ w.text) = "0x" ++ w.text := by
  apply value_of_harmless
  intro c hc
  rw [String.toList_append] at hc
  rcases List.mem_append.mp hc with hc | hc
  · exact List.all_eq_true.mp harmless_mark c hc
  · exact List.all_eq_true.mp harmless_hexDigits c (w.isHex_text.mem hc)

theorem text_emitted (mnemonic : String) (offset : Int) (w : Word) :
    (Event.emitted mnemonic offset w).text =
      "level=debug msg=emit inst=" ++ value mnemonic ++ " offset=" ++ Text.signedDecimal offset ++
        " word=0x" ++ w.text ++ "\n" := by
  have hmessage : value "emit" = "emit" := by decide
  have hlevel : value "debug" = "debug" := by decide
  apply String.toList_inj.mp
  simp [Event.text, line, value_signedDecimal, value_word, hmessage, hlevel]

theorem text_rejected (r : Rejection) (offset : Int) :
    (Event.rejected r offset).text =
      "level=debug msg=\"instruction rejected\" error=" ++ value r.message ++ " offset=" ++
        Text.signedDecimal offset ++ "\n" := by
  have hmessage : value "instruction rejected" = "\"instruction rejected\"" := by decide
  have hlevel : value "debug" = "debug" := by decide
  apply String.toList_inj.mp
  simp [Event.text, line, value_signedDecimal, hmessage, hlevel]

end Trace

namespace Emitter

variable {σ : Type} [Sink σ]

theorem emit_of_ok {e : Emitter σ} {c : Call} {w : Word} (h : e.rejection = none)
    (hc : c.encode e.options.features = .ok w) :
    e.emit c = ⟨e.options, Sink.append e.sink w, none,
      record e.options.tracing e.events (.emitted c.instruction.mnemonic e.offset w)⟩ := by
  obtain ⟨options, sink, rejection, events⟩ := e
  cases h
  simp only [emit, hc]
  rfl

theorem emit_of_error {e : Emitter σ} {c : Call} {r : Rejection} (h : e.rejection = none)
    (hc : c.encode e.options.features = .error r) :
    e.emit c = ⟨e.options, e.sink, some r,
      record e.options.tracing e.events (.rejected r e.offset)⟩ := by
  obtain ⟨options, sink, rejection, events⟩ := e
  cases h
  simp only [emit, hc]
  rfl

theorem run_hom {τ : Type} [Sink τ] {f : Emitter σ → Emitter τ}
    (h : ∀ e c, f (e.emit c) = (f e).emit c) (e : Emitter σ) (calls : List Call) :
    f (e.run calls) = (f e).run calls := by
  induction calls generalizing e with
  | nil => rfl
  | cons c cs ih =>
    have hrest := ih (e.emit c)
    rw [h] at hrest
    exact hrest

def unwatched (e : Emitter (Watched σ)) : Emitter σ :=
  ⟨e.options, e.sink.sink, e.rejection, e.events⟩

def silenced (e : Emitter σ) : Emitter σ :=
  ⟨{ e.options with tracing := false }, e.sink, e.rejection, #[]⟩

theorem unwatched_emit (e : Emitter (Watched σ)) (c : Call) :
    (e.emit c).unwatched = e.unwatched.emit c := by
  cases hr : e.rejection with
  | some r => rw [emit_of_rejected hr, emit_of_rejected (e := e.unwatched) hr]
  | none =>
    cases hc : c.encode e.options.features with
    | ok w =>
      rw [emit_of_ok hr hc, emit_of_ok (e := e.unwatched) hr hc]
      rfl
    | error r =>
      rw [emit_of_error hr hc, emit_of_error (e := e.unwatched) hr hc]
      rfl

theorem silenced_emit (e : Emitter σ) (c : Call) : (e.emit c).silenced = e.silenced.emit c := by
  cases hr : e.rejection with
  | some r => rw [emit_of_rejected hr, emit_of_rejected (e := e.silenced) hr]
  | none =>
    cases hc : c.encode e.options.features with
    | ok w =>
      rw [emit_of_ok hr hc, emit_of_ok (e := e.silenced) hr hc]
      rfl
    | error r =>
      rw [emit_of_error hr hc, emit_of_error (e := e.silenced) hr hc]
      rfl

/-- The entry for a word that a call writes. -/
def entry (c : Call) (write : Int × Word) : Trace.Event :=
  .emitted c.instruction.mnemonic write.1 write.2

def lastEntry (e : Emitter σ) : List Trace.Event :=
  e.rejection.toList.map fun r => .rejected r e.offset

/-- What a run adds to the record of a watched sink and to the trace. -/
theorem run_events {e : Emitter (Watched σ)} (htracing : e.options.tracing = true)
    (hopen : e.rejection = none) (calls : List Call) :
    ∃ writes, (e.run calls).sink.writes = e.sink.writes ++ writes ∧
      writes.length = (acceptedCalls e.options.features calls).length ∧
      (e.run calls).events.toList = e.events.toList ++
        ((acceptedCalls e.options.features calls).zipWith entry writes ++
          (e.run calls).lastEntry) := by
  induction calls generalizing e with
  | nil =>
    refine ⟨[], ?_, rfl, ?_⟩
    · exact (List.append_nil _).symm
    · simp [run, lastEntry, hopen, acceptedCalls]
  | cons c cs ih =>
    rw [run, List.foldl_cons, ← run]
    cases hc : c.encode e.options.features with
    | ok w =>
      have hemit := emit_of_ok hopen hc
      obtain ⟨writes, hwrites, hlength, hevents⟩ := @ih (e.emit c)
        (by rw [hemit]; exact htracing) (by rw [hemit])
      rw [acceptedCalls_cons cs (Call.solo_of_ok hc).2]
      rw [hemit] at hwrites hlength hevents ⊢
      refine ⟨(e.offset, w) :: writes, ?_, ?_, ?_⟩
      · rw [hwrites]
        exact List.append_assoc _ [_] _
      · rw [List.length_cons, hlength, List.length_cons]
      · rw [hevents]
        simp [record, htracing, entry]
    | error r =>
      have hemit := emit_of_error hopen hc
      have hrejected : (e.emit c).rejection = some r := by rw [hemit]
      rw [run_of_rejected hrejected, acceptedCalls_cons_of_error cs (Call.solo_of_error hc).2]
      refine ⟨[], ?_, rfl, ?_⟩
      · rw [hemit, List.append_nil]
      · rw [hemit]
        simp [record, htracing, lastEntry, offset]

theorem isSome_rejection_iff (options : EmitterOptions) (sink : σ) (calls : List Call) :
    ((new options sink).run calls).rejection.isSome ↔
      ∃ c ∈ calls, (c.error options.features).isSome := by
  rw [run_rejection]
  constructor
  · intro h
    obtain ⟨r, hr⟩ := Option.isSome_iff_exists.mp h
    obtain ⟨c, hc, hcr⟩ := Option.bind_eq_some_iff.mp hr
    exact ⟨c, List.mem_of_getElem? hc, by rw [hcr]; rfl⟩
  · rintro ⟨c, hc, hr⟩
    have hlt : (acceptedCalls options.features calls).length < calls.length := by
      apply Nat.lt_of_le_of_ne (List.takeWhile_prefix _).length_le
      intro hlength
      -- if all calls were accepted, this one would be
      have hall := (List.takeWhile_prefix _).eq_of_length hlength
      rw [← hall] at hc
      have hnone := List.all_eq_true.mp List.all_takeWhile c hc
      rw [Option.isNone_iff_eq_none] at hnone
      rw [hnone] at hr
      cases hr
    obtain ⟨r, hr⟩ := error_after_accepted options.features calls hlt
    rw [List.getElem?_eq_getElem hlt, Option.bind_some, hr]
    rfl

/-- The trace of a run is faithful and changes nothing. Take the first `n` calls, made on an emitter
with a trace and on one without, over any sink, watched or not. With a trace or without, the same
words go to the sink at the same positions, and the sink, its position and the error are the same.
The trace has one entry for each of these words, in order, with the word and the position just
before it was written; if a call is rejected, and only then, one more entry follows with the error
and the position of the sink; and nothing else is in the trace. The texts of the entries show a word
as eight digits behind `0x`. -/
theorem run_trace_faithful (features : FeatureSet) (sink : σ) (calls : List Call) (n : Nat) :
    let made := calls.take n
    let traced := (new ⟨features, true⟩ sink).run made
    let silent := (new ⟨features, false⟩ sink).run made
    let watched := (new ⟨features, true⟩ (Watched.start sink)).run made
    let watchedSilent := (new ⟨features, false⟩ (Watched.start sink)).run made
    let writes := watched.sink.writes
    watched.unwatched = traced ∧ watchedSilent.unwatched = silent ∧
      watchedSilent.sink.writes = writes ∧
      silent.sink = traced.sink ∧ silent.offset = traced.offset ∧
      silent.rejection = traced.rejection ∧ silent.events = #[] ∧
      writes.length = (acceptedCalls features made).length ∧
      traced.events.toList =
        (acceptedCalls features made).zipWith entry writes ++
          traced.rejection.toList.map (.rejected · traced.offset) ∧
      (traced.rejection.isSome ↔ ∃ c ∈ made, (c.error features).isSome) ∧
      (∀ c position w, ∃ digits, Text.IsHex 8 w.toNat digits ∧ digits.length = 8 ∧
        (entry c (position, w)).text =
          "level=debug msg=emit inst=" ++ Trace.value c.instruction.mnemonic ++ " offset=" ++
            Text.signedDecimal position ++ " word=0x" ++ String.ofList digits ++ "\n") ∧
      ∀ r position, (Trace.Event.rejected r position).text =
        "level=debug msg=\"instruction rejected\" error=" ++ Trace.value r.message ++ " offset=" ++
          Text.signedDecimal position ++ "\n" := by
  intro made traced silent watched watchedSilent writes
  have hwatched : watched.unwatched = traced := run_hom unwatched_emit _ made
  have hsilent : traced.silenced = silent := run_hom silenced_emit _ made
  have hwatchedSilent : watched.silenced = watchedSilent := run_hom silenced_emit _ made
  obtain ⟨added, hadded, hlength, hevents⟩ :=
    run_events (e := new ⟨features, true⟩ (Watched.start sink)) rfl rfl made
  -- the record and the trace are empty at the start
  obtain rfl : added = writes := hadded.symm
  rw [← hsilent, ← hwatchedSilent]
  refine ⟨hwatched, ?_, rfl, rfl, rfl, rfl, rfl, hlength, ?_, isSome_rejection_iff _ sink made, ?_,
    Trace.text_rejected⟩
  · rw [← hwatched]
    rfl
  · rw [← hwatched]
    exact hevents
  · intro c position w
    refine ⟨w.text.toList, w.isHex_text, w.length_text, ?_⟩
    rw [String.ofList_toList]
    exact Trace.text_emitted _ _ w

end Emitter

end ScalableVector
