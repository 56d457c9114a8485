import ScalableVector.Proofs.SinkAgreement
import ScalableVector.Proofs.Stages

/-!
# Encoding is all or nothing

The program succeeds if no stage fails, and then it outputs the words of all lines: it takes them
from the segment that it encoded them into, four bytes at a time. Otherwise it outputs nothing and
reports the first stage that fails.
-/

namespace ScalableVector

/-- A line for each word: its offset, and the word. -/
def WordLog.listing (l : WordLog) : String :=
  String.join (l.words.toList.zipIdx.map fun entry =>
    Text.hexadecimal 4 (4 * entry.2) ++ ": " ++ entry.1.text ++ "\n")

theorem Word.exists_bytes (w : Word) : ∃ a b c d, w.bytes = [a, b, c, d] ∧ ofBytes a b c d = w := by
  refine ⟨_, _, _, _, rfl, ?_⟩
  have high : w.extractLsb' 24 8 ++ w.extractLsb' 16 8 = w.extractLsb' 16 16 :=
    BitVec.extractLsb'_append_extractLsb'_eq_extractLsb' rfl
  have upper : w.extractLsb' 16 16 ++ w.extractLsb' 8 8 = w.extractLsb' 8 24 :=
    BitVec.extractLsb'_append_extractLsb'_eq_extractLsb' rfl
  have whole : w.extractLsb' 8 24 ++ w.extractLsb' 0 8 = w.extractLsb' 0 32 :=
    BitVec.extractLsb'_append_extractLsb'_eq_extractLsb' rfl
  change w.extractLsb' 24 8 ++ w.extractLsb' 16 8 ++ w.extractLsb' 8 8 ++ w.extractLsb' 0 8 = w
  rw [high, upper, whole, BitVec.extractLsb'_eq_self]

namespace Dump

def lines (offset : Nat) : List Word → List (List Char)
  | [] => []
  | w :: ws => line offset w :: lines (offset + 4) ws

theorem ofBytes_flatMap (offset : Nat) (ws : List Word) :
    ofBytes offset (ws.flatMap Word.bytes) = (lines offset ws).flatMap (· ++ ['\n']) := by
  induction ws generalizing offset with
  | nil => rfl
  | cons w ws ih =>
    obtain ⟨a, b, c, d, hbytes, hword⟩ := w.exists_bytes
    rw [List.flatMap_cons, hbytes, lines, List.flatMap_cons, ← ih, List.append_assoc, ← hword]
    rfl

theorem toList_listing (ws : List Word) :
    (WordLog.listing ⟨ws.toArray⟩).toList = (lines 0 ws).flatMap (· ++ ['\n']) := by
  have hfrom : ∀ k, ((ws.zipIdx k).map fun entry =>
      Text.hexadecimal 4 (4 * entry.2) ++ ": " ++ entry.1.text ++ "\n").flatMap String.toList =
        (lines (4 * k) ws).flatMap (· ++ ['\n']) := by
    induction ws with
    | nil =>
      intro k
      rfl
    | cons w ws ih =>
      intro k
      rw [List.zipIdx_cons, List.map_cons, List.flatMap_cons, ih]
      simp [lines, line, Nat.mul_add]
  rw [WordLog.listing, String.toList_join]
  exact hfrom 0

theorem ofList_ofBytes (ws : List Word) :
    String.ofList (ofBytes 0 (ws.flatMap Word.bytes)) = WordLog.listing ⟨ws.toArray⟩ := by
  rw [ofBytes_flatMap, ← toList_listing, String.ofList_toList]

end Dump

/-- Stages that succeed are encoded into a segment without a fault, and its buffer then holds the
bytes of their words. -/
theorem Stage.bytes_of_succeed {system : System} (hsystem : system.Ample) {options : EmitterOptions}
    {stages : List Stage} (h : Succeed (Emitter.new options (SegmentSink.fresh system)) stages) :
    let sink := (stages.foldl next (Emitter.new options (SegmentSink.fresh system))).sink
    sink.segment.bufferBytes sink.buffer =
      .ok ((stages.flatMap (words options.features)).flatMap Word.bytes) := by
  intro sink
  obtain ⟨s, -, hfold, hholds⟩ := Segment.Holds.empty.writeWords hsystem ⟨0⟩
    (stages.flatMap (words options.features))
  have hsink : sink = ⟨system, s, ⟨0⟩⟩ := (foldl_next_of_succeed rfl h).trans hfold
  rw [hsink]
  exact hholds.bufferBytes (Nat.zero_le _)

namespace EncodeOrder

def logged (o : EncodeOrder) : Emitter WordLog := .new ⟨o.features, o.verbose⟩ .empty

theorem logged_alike (o : EncodeOrder) : o.logged.Alike o.emitter := ⟨rfl, rfl, rfl, rfl⟩

/-- What an order leaves that succeeds: the words of all stages, as a listing or to the file. -/
theorem run_of_succeed {o : EncodeOrder} {i : Inputs}
    (h : Stage.Succeed o.logged (i.stages o.inputs)) :
    let words := (i.stages o.inputs).flatMap (Stage.words o.features)
    (o.run i).exitCode = 0 ∧
      (o.output = [] →
        (o.run i).output = WordLog.listing ⟨words.toArray⟩ ∧ (o.run i).written = none) ∧
      (o.output ≠ [] →
        (o.run i).output = "" ∧ (o.run i).written = some (o.output, words.flatMap Word.bytes)) := by
  intro words
  have hsucceed := Stage.succeed_of_alike o.logged_alike h
  have hbytes : ((i.stages o.inputs).foldl Stage.next o.emitter).sink.bytes =
      words.flatMap Word.bytes := by
    have hbuffer := Stage.bytes_of_succeed System.unlimited_ample hsucceed
    rw [SegmentSink.bytes]
    simp only [emitter, hbuffer]
    rfl
  have houtcome : o.run i =
      let log := Trace.text ((i.stages o.inputs).foldl Stage.next o.emitter).events.toList
      if o.output.isEmpty then ⟨0, WordLog.listing ⟨words.toArray⟩, log, none⟩
      else ⟨0, "", log, some (o.output, words.flatMap Word.bytes)⟩ := by
    rw [run, Inputs.encode_eq_run, Stage.run_of_succeed hsucceed]
    simp only [hbytes, Dump.ofList_ofBytes]
  rw [houtcome]
  refine ⟨?_, ?_, ?_⟩
  · dsimp only
    split <;> rfl
  · intro houtput
    rw [houtput]
    exact ⟨rfl, rfl⟩
  · intro houtput
    rw [if_neg (by simpa using houtput)]
    exact ⟨rfl, rfl⟩

/-- What an order leaves that fails: the report of the failure, after what was logged up to it. -/
theorem run_of_failure {o : EncodeOrder} {i : Inputs} {e : Emitter WordLog} {f : InputFailure}
    (h : Stage.run o.logged (i.stages o.inputs) = (e, some f)) :
    o.run i = .failed (Trace.text e.events.toList) f.message := by
  obtain ⟨hfailure, halike⟩ := Stage.run_of_alike o.logged_alike (i.stages o.inputs)
  rw [h] at hfailure halike
  rw [run, Inputs.encode_eq_run]
  cases hrun : Stage.run o.emitter (i.stages o.inputs) with
  | mk e' f' =>
    rw [hrun] at hfailure halike
    cases hfailure
    have hevents : e.events = e'.events := halike.events
    rw [hevents]

end EncodeOrder

namespace Task

/-- Encoding is all or nothing. The lines of a text make it up. An unknown extension is reported
before anything is read. If no stage fails, the program ends with code 0 and outputs the words of
all lines in order, as a listing or to the file. Otherwise it ends with code 1, prints nothing,
writes no file, and reports the first stage that fails after what was logged up to it, which is
nothing unless words are logged; for a line the report starts with the title of the input and the
number of the line. -/
theorem encoding_all_or_nothing (env : Environment) (settings : Settings) (names : List Bytes)
    (i : Inputs) :
    let outcome := Task.run i (encoding env settings names)
    let stages := i.stages (if names.isEmpty then [standardInputName] else names)
    (∀ text, Listing.MakeUp text (Listing.lines text)) ∧
    (∀ name, env.enabled settings = .error name →
      outcome.exitCode = 1 ∧ outcome.output = "" ∧ outcome.written = none ∧
        outcome.errors = FeatureSet.unknownMessage name ++ "\n") ∧
    ∀ features, env.enabled settings = .ok features →
      let start : Emitter WordLog := .new ⟨features, settings.verbose⟩ .empty
      let words := stages.flatMap (Stage.words features)
      (Stage.Succeed start stages →
        outcome.exitCode = 0 ∧
        (settings.output = [] →
          outcome.output = WordLog.listing ⟨words.toArray⟩ ∧ outcome.written = none) ∧
        (settings.output ≠ [] →
          outcome.output = "" ∧
          outcome.written = some (settings.output, words.flatMap Word.bytes))) ∧
      (¬Stage.Succeed start stages →
        outcome.exitCode = 1 ∧ outcome.output = "" ∧ outcome.written = none ∧
        ∃ k failure, Stage.FailsFirst start stages k failure ∧
          let log := Trace.text (Stage.after start stages (k + 1)).events.toList
          outcome.errors = log ++ failure.message ++ "\n" ∧
          (settings.verbose = false → log = "") ∧
          ∀ title number text, stages[k]? = some (.line title number text) →
            text.length < 65536 →
            ∃ error, (Listing.step (Stage.after start stages k) (Listing.dropReturn text)).2 =
                some error ∧
              outcome.errors = log ++ (Text.display title ++ ":" ++ Text.decimal number ++ ": " ++
                error.message) ++ "\n") := by
  intro outcome stages
  refine ⟨Listing.lines_makeUp, fun name hname => ?_, fun features hfeatures => ?_⟩
  · have houtcome : outcome = .failed "" (FeatureSet.unknownMessage name) := by
      change Task.run i (encoding env settings names) = _
      rw [encoding, hname]
      rfl
    rw [houtcome, Outcome.failed, String.empty_append]
    exact ⟨rfl, rfl, rfl, rfl⟩
  intro start words
  let order : EncodeOrder :=
    ⟨features, settings.verbose, settings.output,
      if names.isEmpty then [standardInputName] else names⟩
  have hrun : outcome = order.run i := by
    change Task.run i (encoding env settings names) = _
    rw [encoding, hfeatures]
    rfl
  rw [hrun]
  rcases Stage.run_cases start stages with ⟨hsucceed, -⟩ | ⟨k, f, hfails, hstages⟩
  · exact ⟨EncodeOrder.run_of_succeed (o := order), fun h => absurd hsucceed h⟩
  · refine ⟨fun h => ?_, fun _ => ?_⟩
    · rw [Stage.succeed_iff_run, hstages] at h
      cases h
    have hfailed := EncodeOrder.run_of_failure (o := order) hstages
    rw [hfailed]
    refine ⟨rfl, rfl, rfl, k, f, hfails, ?_⟩
    intro log
    refine ⟨rfl, fun hverbose => ?_, ?_⟩
    · change Trace.text (Stage.after start stages (k + 1)).events.toList = ""
      rw [Stage.after_untraced hverbose]
      rfl
    intro title number text htext hlength
    obtain ⟨_, s, hs, hfailure⟩ := hfails
    obtain rfl : s = .line title number text := Option.some.inj (hs.symm.trans htext)
    obtain ⟨error, herror, hmessage⟩ := Stage.message_of_line hlength hfailure
    refine ⟨error, herror, ?_⟩
    rw [← hmessage]
    rfl

private def toFile : Settings := ⟨none, false, Bytes.ofString "out", false⟩

private def accepted : Inputs :=
  ⟨Bytes.ofString "Add s, z0, z1, z2\r\n\nadd d, z3, z4, z5 // sum", fun _ => .ok []⟩

private def rejected : Inputs :=
  ⟨Bytes.ofString "Add s, z0, z1, z2\r\n\nadd q, z3, z4, z5\nFrob", fun _ => .ok []⟩

theorem encoding_twoListings :
    let succeeded := Task.run accepted (encoding ⟨none, none⟩ toFile [])
    let failed := Task.run rejected (encoding ⟨none, none⟩ toFile [])
    succeeded.exitCode = 0 ∧
      succeeded.written =
        some (Bytes.ofString "out", [0x20, 0x00, 0xa2, 0x04, 0x83, 0x00, 0xe5, 0x04]) ∧
      failed.exitCode = 1 ∧ failed.written = none := by
  intro succeeded failed
  have hsucceeds := ((encoding_all_or_nothing ⟨none, none⟩ toFile [] accepted).2.2 .all rfl).1
    (by decide +kernel)
  have hfails := ((encoding_all_or_nothing ⟨none, none⟩ toFile [] rejected).2.2 .all rfl).2
    (by decide +kernel)
  refine ⟨hsucceeds.1, ?_, hfails.1, hfails.2.2.1⟩
  rw [(hsucceeds.2.2 (by decide)).2]
  decide +kernel

end Task

end ScalableVector
