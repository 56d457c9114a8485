import ScalableVector.Emitter.Sink
import ScalableVector.Proofs.Journal
import ScalableVector.Proofs.Run

/-!
# Agreement of sinks

A run hands the same words to every sink. A buffer of a segment and an assembler keep them in
different ways and give the same machine code for them, in which each word stands at the position
that the sink had before the word was written.
-/

namespace ScalableVector

theorem length_flatMap_bytes (ws : List Word) : (ws.flatMap Word.bytes).length = 4 * ws.length := by
  induction ws with
  | nil => rfl
  | cons w ws ih =>
    rw [List.flatMap_cons, List.length_append, ih, List.length_cons]
    change 4 + 4 * ws.length = 4 * (ws.length + 1)
    omega

theorem slice_flatMap_bytes {front ws : List Word} {w : Word} (h : front ++ [w] <+: ws) :
    ((ws.flatMap Word.bytes).drop (4 * front.length)).take 4 = w.bytes := by
  obtain ⟨rest, rfl⟩ := h
  have hsplit : (front ++ [w] ++ rest).flatMap Word.bytes =
      front.flatMap Word.bytes ++ (w.bytes ++ rest.flatMap Word.bytes) := by
    simp [List.flatMap_append, List.append_assoc]
  rw [hsplit, ← length_flatMap_bytes, List.drop_left]
  rfl

namespace Segment

theorem Holds.writeWords {system : System} (hsystem : system.Ample) {s : Segment} {log : Bytes}
    (h : s.Holds log) (b : Buffer) (ws : List Word) :
    ∃ s', s.writeWords system ws = (.ok (), s') ∧
      ws.foldl Sink.append (⟨system, s, b⟩ : SegmentSink) = ⟨system, s', b⟩ ∧
      s'.Holds (log ++ ws.flatMap Word.bytes) := by
  induction ws generalizing s log with
  | nil =>
    rw [List.flatMap_nil, List.append_nil]
    exact ⟨s, rfl, rfl, h⟩
  | cons w ws ih =>
    obtain ⟨next, hnext, hholds⟩ := h.writeWord hsystem w
    obtain ⟨last, hlast, hfold, hlog⟩ := ih hholds
    have happend : Sink.append (⟨system, s, b⟩ : SegmentSink) w = ⟨system, next, b⟩ := by
      change (⟨system, (s.writeWord system w).2, b⟩ : SegmentSink) = _
      rw [hnext]
    refine ⟨last, ?_, ?_, ?_⟩
    · rw [Segment.writeWords, hnext]
      exact hlast
    · rw [List.foldl_cons, happend, hfold]
    · rw [List.flatMap_cons, ← List.append_assoc]
      exact hlog

end Segment

instance : LawfulSink AssemblySink where
  position_append s w := by
    change ((4 * (s.count + 1) : Nat) : Int) = (4 * s.count : Nat) + 4
    omega

/-- The assembler places the words that follow the first directive, in order, and adds nothing but
padding after them. -/
def PlacesWords (assembler : List Directive → Bytes) : Prop :=
  ∀ (first : Directive) (ws : List Word), ∃ padding,
    assembler (first :: ws.map .word) = ws.flatMap Word.bytes ++ padding

namespace AssemblySink

theorem foldl_append (s : AssemblySink) (ws : List Word) :
    (ws.foldl Sink.append s).directives.toList = s.directives.toList ++ ws.map .word ∧
      (ws.foldl Sink.append s).count = s.count + ws.length := by
  induction ws generalizing s with
  | nil => simp
  | cons w ws ih =>
    obtain ⟨hdirectives, hcount⟩ := ih (Sink.append s w)
    rw [List.foldl_cons, hdirectives, hcount, List.length_cons]
    refine ⟨by simp [Sink.append], ?_⟩
    change s.count + 1 + ws.length = s.count + (ws.length + 1)
    omega

theorem assemble_foldl {assembler : List Directive → Bytes} (h : PlacesWords assembler)
    (ws : List Word) :
    (ws.foldl Sink.append new).assemble assembler = .ok (ws.flatMap Word.bytes) := by
  obtain ⟨hdirectives, hcount⟩ := foldl_append new ws
  obtain ⟨padding, hpadding⟩ := h .nothing ws
  have hlength := length_flatMap_bytes ws
  have hcode : assembler (ws.foldl Sink.append new).directives.toList =
      ws.flatMap Word.bytes ++ padding := by
    rw [hdirectives, ← hpadding]
    rfl
  have htotal : (ws.foldl Sink.append new).count = ws.length := by
    rw [hcount]
    exact Nat.zero_add _
  have henough : ¬(ws.flatMap Word.bytes ++ padding).length < 4 * ws.length := by
    rw [List.length_append, hlength]
    omega
  simp only [assemble, hcode, htotal, if_neg henough]
  rw [← hlength, List.take_left]

end AssemblySink

namespace Emitter

variable {σ : Type} [Sink σ]

def writtenWords (features : FeatureSet) (calls : List Call) : List Word :=
  (acceptedCalls features calls).flatMap (Call.words features)

theorem run_sink (options : EmitterOptions) (sink : σ) (calls : List Call) :
    ((new options sink).run calls).sink =
      (writtenWords options.features calls).foldl Sink.append sink :=
  (run_of_open (e := new options sink) rfl calls).1

theorem run_rejection (options : EmitterOptions) (sink : σ) (calls : List Call) :
    ((new options sink).run calls).rejection =
      calls[(acceptedCalls options.features calls).length]?.bind (Call.error options.features) :=
  (run_of_open (e := new options sink) rfl calls).2

theorem run_offset [LawfulSink σ] (options : EmitterOptions) (sink : σ) (calls : List Call) :
    ((new options sink).run calls).offset =
      Sink.position sink + 4 * (writtenWords options.features calls).length := by
  rw [offset, run_sink, position_foldl]

/-- Over a buffer of a fresh segment, no write of a run fails, and the segment holds the bytes of
the words. -/
theorem run_fresh_segment {system : System} (hsystem : system.Ample) (options : EmitterOptions)
    (calls : List Call) :
    ∃ s, Segment.empty.writeWords system (writtenWords options.features calls) = (.ok (), s) ∧
      ((new options (SegmentSink.fresh system)).run calls).sink = ⟨system, s, ⟨0⟩⟩ ∧
      s.Holds ((writtenWords options.features calls).flatMap Word.bytes) := by
  rw [run_sink]
  exact Segment.Holds.empty.writeWords hsystem ⟨0⟩ _

theorem writtenWords_take_prefix (features : FeatureSet) (calls : List Call) (n : Nat) :
    writtenWords features (calls.take n) <+: writtenWords features calls := by
  rw [writtenWords, acceptedCalls_take]
  refine ⟨((acceptedCalls features calls).drop n).flatMap (Call.words features), ?_⟩
  rw [← List.flatMap_append, List.take_append_drop]
  rfl

theorem acceptedCalls_of_open {options : EmitterOptions} {sink : σ} {calls : List Call}
    (h : ((new options sink).run calls).rejection = none) :
    acceptedCalls options.features calls = calls := by
  have hprefix : acceptedCalls options.features calls <+: calls := List.takeWhile_prefix _
  by_cases hlt : (acceptedCalls options.features calls).length < calls.length
  · obtain ⟨r, hr⟩ := error_after_accepted options.features calls hlt
    rw [run_rejection, List.getElem?_eq_getElem hlt, Option.bind_some, hr] at h
    cases h
  · apply hprefix.eq_of_length
    have := hprefix.length_le
    omega

theorem writtenWords_take_succ {options : EmitterOptions} {sink : σ} {calls : List Call} {n : Nat}
    (hn : n < calls.length) (hopen : ((new options sink).run (calls.take n)).rejection = none)
    {w : Word} (hw : calls[n].words options.features = [w]) :
    writtenWords options.features (calls.take (n + 1)) =
      writtenWords options.features (calls.take n) ++ [w] := by
  have haccepted := acceptedCalls_of_open hopen
  have herror : calls[n].error options.features = none := by
    rcases Call.words_or_error options.features calls[n] with ⟨_, _, hnone⟩ | ⟨_, hnil, _⟩
    · exact hnone
    · rw [hw] at hnil
      cases hnil
  have hall : ∀ c ∈ calls.take n, (c.error options.features).isNone = true := by
    intro c hc
    rw [← haccepted] at hc
    exact List.all_eq_true.mp List.all_takeWhile c hc
  rw [writtenWords, acceptedCalls, List.take_succ_eq_append_getElem hn,
    List.takeWhile_append_of_pos hall, ← acceptedCalls, acceptedCalls_cons [] herror,
    List.flatMap_append, writtenWords, haccepted, List.flatMap_cons, hw]
  rfl

/-- Every sink gets the same words. Over a buffer of a fresh segment, for which there is memory, and
over an assembler a run has the same position and the same error after every call, and no write to
the segment fails. At the end, the bytes of the buffer are what the assembler makes, and a word that
a call wrote stands at the position before the call. -/
theorem run_agrees_on_sinks {assembler : List Directive → Bytes} (h : PlacesWords assembler)
    {system : System} (hsystem : system.Ample) (options : EmitterOptions) (calls : List Call) :
    let fresh := SegmentSink.fresh system
    let buffered := fun n => (new options fresh).run (calls.take n)
    let assembled := fun n => (new options AssemblySink.new).run (calls.take n)
    Segment.empty.openBuffer system = (.ok fresh.buffer, fresh.segment) ∧
      (∀ n, (buffered n).offset = (assembled n).offset ∧
        (buffered n).rejection = (assembled n).rejection ∧
        fresh.segment.writeWords system (writtenWords options.features (calls.take n)) =
          (.ok (), (buffered n).sink.segment)) ∧
      ∃ code, (buffered calls.length).sink.segment.bufferBytes fresh.buffer = .ok code ∧
        (assembled calls.length).sink.assemble assembler = .ok code ∧
        ∀ (n : Nat) (hn : n < calls.length) (w : Word), (buffered n).rejection = none →
          calls[n].words options.features = [w] →
          ∃ before : Nat, (buffered n).offset = before ∧
            (code.drop before).take 4 = w.bytes := by
  intro fresh buffered assembled
  have hposition : ∀ n, (buffered n).offset =
      (4 * (writtenWords options.features (calls.take n)).length : Nat) := by
    intro n
    rw [run_offset]
    change (0 : Int) - (0 : Nat) + _ = _
    omega
  refine ⟨rfl, fun n => ⟨?_, ?_, ?_⟩,
    (writtenWords options.features calls).flatMap Word.bytes, ?_, ?_, ?_⟩
  · rw [hposition, run_offset]
    change _ = (4 * 0 : Int) + _
    omega
  · rw [run_rejection, run_rejection]
  · obtain ⟨s, hwrite, hsink, -⟩ := run_fresh_segment hsystem options (calls.take n)
    rw [hsink]
    exact hwrite
  · obtain ⟨s, -, hsink, hholds⟩ := run_fresh_segment hsystem options (calls.take calls.length)
    rw [List.take_length] at hholds
    rw [hsink]
    exact hholds.bufferBytes (Nat.zero_le _)
  · rw [run_sink, List.take_length]
    exact AssemblySink.assemble_foldl h _
  · intro n hn w hopen hw
    refine ⟨_, hposition n, slice_flatMap_bytes ?_⟩
    rw [← writtenWords_take_succ hn hopen hw]
    exact writtenWords_take_prefix _ _ _

private def placed : Directive → Bytes
  | .nothing => []
  | .word w => w.bytes

/-- An assembler that aligns the end of a function at 16 bytes. -/
private def aligned (directives : List Directive) : Bytes :=
  let code := directives.tail.flatMap placed
  code.rightpad (16 * ((code.length + 15) / 16)) 0

private theorem placesWords_aligned : PlacesWords aligned := by
  intro first ws
  have hcode : (ws.map Directive.word).flatMap placed = ws.flatMap Word.bytes :=
    List.flatMap_map _ _ ws
  rw [aligned, List.tail_cons, hcode, List.rightpad]
  exact ⟨_, rfl⟩

private def rejectedThird : List Call :=
  [⟨Mask.faultWrite.instruction ⟨"Wrffr", "wrffr", 0x25289000⟩, [.predicate .plain ⟨6⟩], rfl⟩,
    ⟨Unpredicated.arithmetic.instruction ⟨"Add", "add", 0x04200000⟩,
      [.element .double, .vector ⟨3⟩, .vector ⟨4⟩, .vector ⟨5⟩], rfl⟩,
    ⟨Predicated.division.instruction ⟨"Sdiv", "sdiv", 0x04140000⟩,
      [.element .byte, .vector ⟨3⟩, .predicate .merging ⟨0⟩, .vector ⟨3⟩, .vector ⟨5⟩], rfl⟩]

theorem run_rejectedThird :
    let buffered := (new .standard (SegmentSink.fresh .unlimited)).run rejectedThird
    PlacesWords aligned ∧
      ∃ code, buffered.sink.segment.bufferBytes ⟨0⟩ = .ok code ∧
        ((new .standard AssemblySink.new).run rejectedThird).sink.assemble aligned = .ok code ∧
        (code.drop 4).take 4 = [0x83, 0x00, 0xe5, 0x04] := by
  obtain ⟨-, hsteps, code, hbuffer, hassemble, hwords⟩ :=
    run_agrees_on_sinks placesWords_aligned System.unlimited_ample .standard rejectedThird
  refine ⟨placesWords_aligned, code, hbuffer, hassemble, ?_⟩
  obtain ⟨before, hbefore, hcode⟩ := hwords 1 (by decide) 0x04e50083
    (by decide +kernel) (by decide +kernel)
  have hoffset : ((new .standard AssemblySink.new).run (rejectedThird.take 1)).offset = 4 := by
    decide +kernel
  rw [(hsteps 1).1, hoffset] at hbefore
  obtain rfl : before = 4 := by omega
  rw [hcode]
  decide +kernel

end Emitter

end ScalableVector
