import ScalableVector.Proofs.AllOrNothing
import ScalableVector.Proofs.Hexadecimal

/-!
# Dumps of words

A program is printed as a dump of the bytes of its segment, four to a line with their offset, or the
bytes go to a file. The two outputs describe the same program: a dump reads as the bytes, and any
other system that has memory to give leads to the same ones.
-/

namespace ScalableVector

namespace Dump

def readLine? (line : List Char) : Option (Nat × Word) :=
  match line.dropWhile (· != ':') with
  | ':' :: ' ' :: digits =>
    match Text.readHex? (line.takeWhile (· != ':')), Text.readHex? digits with
    | some offset, some n =>
      let w : Word := BitVec.ofNat 32 n
      if w.toNat = n then some (offset, w) else none
    | _, _ => none
  | _ => none

/-- Appends the bytes of lines. Each line has to name the offset that it is read at. -/
def readLines? (bytes : Bytes) : List (List Char) → Option Bytes
  | [] => some bytes
  | line :: rest =>
    match readLine? line with
    | some (offset, w) => if offset = bytes.length then readLines? (bytes ++ w.bytes) rest else none
    | none => none

/-- The bytes that a dump shows. Each of its lines has an end. -/
def read? (text : String) : Option Bytes :=
  let pieces := text.toList.splitOn '\n'
  if pieces.getLast? = some [] then readLines? [] pieces.dropLast else none

theorem length_lines (offset : Nat) (ws : List Word) : (lines offset ws).length = ws.length := by
  induction ws generalizing offset with
  | nil => rfl
  | cons w ws ih => simp [lines, ih]

theorem getElem?_lines (offset : Nat) (ws : List Word) (k : Nat) :
    (lines offset ws)[k]? = ws[k]?.map (line (offset + 4 * k)) := by
  induction ws generalizing offset k with
  | nil => rfl
  | cons w ws ih =>
    cases k with
    | zero => rfl
    | succ k =>
      have hoffset : offset + 4 + 4 * k = offset + 4 * (k + 1) := by omega
      simp only [lines, List.getElem?_cons_succ, ih, hoffset]

private theorem marks_notMem :
    ':' ∉ "0123456789abcdef".toList ∧ '\n' ∉ "0123456789abcdef".toList := by
  decide

theorem newline_notMem_line (offset : Nat) (w : Word) : '\n' ∉ line offset w := by
  have hoffset : '\n' ∉ (Text.hexadecimal 4 offset).toList :=
    fun h => marks_notMem.2 ((Text.isHex_hexadecimal (by decide) offset).mem h)
  have hword : '\n' ∉ w.text.toList := fun h => marks_notMem.2 (w.isHex_text.mem h)
  simp [line, hoffset, hword]

theorem readLine_line (offset : Nat) (w : Word) : readLine? (line offset w) = some (offset, w) := by
  have hoffset : Text.IsHex 4 offset (Text.hexadecimal 4 offset).toList :=
    Text.isHex_hexadecimal (by decide) offset
  have hdigits : ∀ c ∈ (Text.hexadecimal 4 offset).toList, (c != ':') = true := by
    intro c hc
    rw [bne_iff_ne]
    rintro rfl
    exact marks_notMem.1 (hoffset.mem hc)
  have hfront : (line offset w).takeWhile (· != ':') = (Text.hexadecimal 4 offset).toList := by
    rw [line, List.takeWhile_append_of_pos hdigits]
    exact List.append_nil _
  have hback : (line offset w).dropWhile (· != ':') = ':' :: ' ' :: w.text.toList := by
    rw [line, List.dropWhile_append_of_pos hdigits]
    rfl
  simp only [readLine?, hfront, hback, hoffset.reads, w.isHex_text.reads, BitVec.ofNat_toNat,
    BitVec.setWidth_eq, if_true]

/-- Lines are read one by one; the bytes that are there say which offset comes next. -/
theorem readLines_lines (bytes : Bytes) (ws : List Word) :
    readLines? bytes (lines bytes.length ws) = some (bytes ++ ws.flatMap Word.bytes) := by
  induction ws generalizing bytes with
  | nil => simp [lines, readLines?]
  | cons w ws ih =>
    have hlength : bytes.length + 4 = (bytes ++ w.bytes).length := by
      rw [List.length_append]
      rfl
    simp only [lines, readLines?, readLine_line, if_pos, hlength, ih, List.flatMap_cons,
      List.append_assoc]

theorem read_lines {text : String} {ws : List Word}
    (h : text.toList = (lines 0 ws).flatMap (· ++ ['\n'])) :
    read? text = some (ws.flatMap Word.bytes) := by
  have hends : ∀ piece ∈ lines 0 ws ++ [[]], '\n' ∉ piece := by
    intro piece hpiece
    rcases List.mem_append.mp hpiece with hline | hlast
    · obtain ⟨k, hk⟩ := List.mem_iff_getElem?.mp hline
      rw [getElem?_lines] at hk
      obtain ⟨w, -, rfl⟩ := Option.map_eq_some_iff.mp hk
      exact newline_notMem_line _ w
    · rw [List.mem_singleton.mp hlast]
      exact List.not_mem_nil
  have hpieces : text.toList.splitOn '\n' = lines 0 ws ++ [[]] := by
    rw [h, ← List.append_nil (List.flatMap _ _), ← Listing.intercalate_concat]
    exact List.splitOn_intercalate '\n' hends (by simp)
  simp only [read?, hpieces, List.getLast?_concat, List.dropLast_concat, if_true]
  exact readLines_lines [] ws

end Dump

namespace Stage

variable {σ : Type} [Sink σ]

def isInstruction : Stage → Bool
  | unreadable _ => false
  | line _ _ text => !(Text.trim (Line.dropComment (Listing.dropReturn text))).isEmpty

theorem length_words_of_open {e : Emitter σ} (h : e.rejection = none) {s : Stage}
    (hs : s.failure e = none) :
    (s.words e.options.features).length = if s.isInstruction then 1 else 0 := by
  cases s with
  | unreadable reason => cases hs
  | line title number text =>
    by_cases hlength : text.length < 65536
    · rw [failure, if_pos hlength, Option.map_eq_none_iff, Listing.step, Line.parse] at hs
      rw [words, isInstruction, Line.parse]
      by_cases hblank : (Text.trim (Line.dropComment (Listing.dropReturn text))).isEmpty
      · simp [hblank]
      · simp only [hblank] at hs ⊢
        cases hcall : Line.call (Text.trim (Line.dropComment (Listing.dropReturn text))) with
        | error error =>
          rw [hcall] at hs
          cases hs
        | ok c =>
          rw [hcall] at hs
          have hopen := Option.map_eq_none_iff.mp hs
          rw [(Emitter.emit_of_open h c).2.2] at hopen
          rcases Call.words_or_error e.options.features c with ⟨w, hw, -⟩ | ⟨r, -, hr⟩
          · exact congrArg List.length hw
          · rw [hr] at hopen
            cases hopen
    · rw [failure, if_neg hlength] at hs
      cases hs

theorem length_words_of_succeed {e : Emitter σ} (h : e.rejection = none) {stages : List Stage}
    (hs : Succeed e stages) :
    (stages.flatMap (words e.options.features)).length = (stages.filter isInstruction).length := by
  induction stages generalizing e with
  | nil => rfl
  | cons s rest ih =>
    obtain ⟨hoptions, hopen, -⟩ := next_of_open h (hs 0 s rfl)
    have hrest := ih hopen fun k t ht => hs (k + 1) t ht
    have hword := length_words_of_open h (hs 0 s rfl)
    rw [hoptions] at hrest
    rw [List.flatMap_cons, List.length_append, hword, hrest, List.filter_cons]
    split
    · rw [List.length_cons, Nat.add_comm]
    · rw [Nat.zero_add]

end Stage

/-- Inputs that succeed are encoded into any segment for which there is memory, and its buffer then
holds the bytes of their words. -/
theorem Inputs.encode_fresh_segment {system : System} (hsystem : system.Ample) {i : Inputs}
    {options : EmitterOptions} {names : List Bytes}
    (h : Stage.Succeed (Emitter.new options WordLog.empty) (i.stages names)) :
    ∃ e, i.encode (Emitter.new options (SegmentSink.fresh system)) names = (e, none) ∧
      e.sink.segment.bufferBytes e.sink.buffer =
        .ok (((i.stages names).flatMap (Stage.words options.features)).flatMap Word.bytes) := by
  have halike : (Emitter.new options WordLog.empty).Alike
      (Emitter.new options (SegmentSink.fresh system)) := ⟨rfl, rfl, rfl, rfl⟩
  have hsucceed := Stage.succeed_of_alike halike h
  refine ⟨_, ?_, Stage.bytes_of_succeed hsystem hsucceed⟩
  rw [encode_eq_run]
  exact Stage.run_of_succeed hsucceed

theorem EncodeOrder.succeed_of_exitCode {o : EncodeOrder} {i : Inputs}
    (h : (o.run i).exitCode = 0) : Stage.Succeed o.logged (i.stages o.inputs) := by
  rcases Stage.run_cases o.logged (i.stages o.inputs) with ⟨hsucceed, -⟩ | ⟨k, f, -, hrun⟩
  · exact hsucceed
  · rw [run_of_failure hrun] at h
    cases h

/-- The printed dump and the written file are the same program. Take arguments that ask for a dump,
and others that ask for a file and are the same order otherwise. If the inputs can be encoded, the
dump has a line for each instruction line of the inputs, with the offset in four digits at least and
the word in eight; the other run prints nothing and writes the bytes of the same words. The dump
reads as these bytes, and it is what they give when they are kept in a segment, for which there is
memory, and taken from it four by four. -/
theorem dump_describes_binary {env : Environment} {printing writing : List Bytes}
    {order : EncodeOrder} {file : Bytes}
    (hprinting : Task.ofArguments env printing = .ok (.encode { order with output := [] }))
    (hwriting : Task.ofArguments env writing = .ok (.encode { order with output := file }))
    (hfile : file ≠ []) (i : Inputs) (hsuccess : (runProgram env printing i).exitCode = 0) :
    let printed := runProgram env printing i
    let written := runProgram env writing i
    let stages := i.stages order.inputs
    let words := stages.flatMap (Stage.words order.features)
    let bytes := words.flatMap Word.bytes
    words.length = (stages.filter Stage.isInstruction).length ∧
      printed.written = none ∧
      (∃ lines : List (List Char), printed.output.toList = lines.flatMap (· ++ ['\n']) ∧
        lines.length = words.length ∧
        ∀ k w, words[k]? = some w → ∃ offset digits,
          lines[k]? = some (offset ++ ':' :: ' ' :: digits) ∧
            Text.IsHex 4 (4 * k) offset ∧ Text.IsHex 8 w.toNat digits ∧ digits.length = 8) ∧
      written.exitCode = 0 ∧ written.output = "" ∧ written.written = some (file, bytes) ∧
      bytes.length = 4 * (stages.filter Stage.isInstruction).length ∧
      Dump.read? printed.output = some bytes ∧
      printed.output.toList = Dump.ofBytes 0 bytes ∧
      ∀ system : System, system.Ample →
        ∃ e, i.encode (Emitter.new ⟨order.features, order.verbose⟩ (SegmentSink.fresh system))
            order.inputs = (e, none) ∧
          e.sink.segment.bufferBytes e.sink.buffer = .ok bytes := by
  intro printed written stages words bytes
  have hprinted : printed = EncodeOrder.run { order with output := [] } i := by
    change Task.run i (Task.ofArguments env printing) = _
    rw [hprinting]
    rfl
  have hwritten : written = EncodeOrder.run { order with output := file } i := by
    change Task.run i (Task.ofArguments env writing) = _
    rw [hwriting]
    rfl
  have hsucceed : Stage.Succeed order.logged stages := by
    apply EncodeOrder.succeed_of_exitCode (o := { order with output := [] })
    rw [← hprinted]
    exact hsuccess
  have hcount : words.length = (stages.filter Stage.isInstruction).length :=
    Stage.length_words_of_succeed (e := order.logged) rfl hsucceed
  obtain ⟨-, hprint, -⟩ := EncodeOrder.run_of_succeed (o := { order with output := [] }) hsucceed
  obtain ⟨hcode, -, hwrite⟩ :=
    EncodeOrder.run_of_succeed (o := { order with output := file }) hsucceed
  have hdump : printed.output.toList = (Dump.lines 0 words).flatMap (· ++ ['\n']) := by
    rw [hprinted, (hprint rfl).1]
    exact Dump.toList_listing words
  rw [hwritten]
  refine ⟨hcount, ?_, ⟨Dump.lines 0 words, hdump, Dump.length_lines 0 words, ?_⟩, hcode,
    (hwrite hfile).1, (hwrite hfile).2, ?_, Dump.read_lines hdump, ?_,
    fun system hsystem => Inputs.encode_fresh_segment hsystem hsucceed⟩
  · rw [hprinted]
    exact (hprint rfl).2
  · intro k w hw
    refine ⟨_, _, ?_, Text.isHex_hexadecimal (by decide) (4 * k), w.isHex_text, w.length_text⟩
    rw [Dump.getElem?_lines, hw, Nat.zero_add]
    rfl
  · rw [length_flatMap_bytes, hcount]
  · rw [hdump, Dump.ofBytes_flatMap]

private def twoWords : Inputs :=
  ⟨Bytes.ofString "Add s, z0, z1, z2\r\n\n  // none\nSetffr // the last", fun _ => .ok []⟩

theorem dump_describes_binary_twoWords :
    let printed := runProgram ⟨none, none⟩ [Bytes.ofString "encode"] twoWords
    let written := runProgram ⟨none, none⟩
      [Bytes.ofString "encode", Bytes.ofString "-o", Bytes.ofString "out"] twoWords
    let bytes := [0x20, 0x00, 0xa2, 0x04, 0x00, 0x90, 0x2c, 0x25]
    printed.exitCode = 0 ∧ written.written = some (Bytes.ofString "out", bytes) ∧
      Dump.read? printed.output = some bytes := by
  intro printed written bytes
  let order : EncodeOrder := ⟨.all, false, [], [standardInputName]⟩
  have hprinting : Task.ofArguments ⟨none, none⟩ [Bytes.ofString "encode"] =
      .ok (.encode { order with output := [] }) := rfl
  have hwriting : Task.ofArguments ⟨none, none⟩
      [Bytes.ofString "encode", Bytes.ofString "-o", Bytes.ofString "out"] =
        .ok (.encode { order with output := Bytes.ofString "out" }) := rfl
  have hcomputed : printed.exitCode = 0 ∧
      ((twoWords.stages order.inputs).flatMap (Stage.words order.features)).flatMap Word.bytes =
        bytes := by decide +kernel
  obtain ⟨hsuccess, hbytes⟩ := hcomputed
  obtain ⟨-, -, -, -, -, hwritten, -, hread, -⟩ :=
    dump_describes_binary hprinting hwriting (by decide) twoWords hsuccess
  rw [hbytes] at hwritten hread
  exact ⟨hsuccess, hwritten, hread⟩

end ScalableVector
