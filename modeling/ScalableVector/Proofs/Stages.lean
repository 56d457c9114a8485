import ScalableVector.Command.Run
import ScalableVector.Proofs.Run

/-!
# Stages of encoding

What the program has to encode is a sequence of stages: for each input its lines, or the one stage
that it cannot be read. They are gone through on one emitter until one fails, and which one fails
does not depend on the sink.
-/

namespace ScalableVector

namespace Listing

/-- Lines make up a text: none has a line feed, and with one after each line they are the text,
which may lack the last line feed unless the last line is empty. -/
def MakeUp (text : Bytes) (lines : List Bytes) : Prop :=
  (∀ line ∈ lines, 0x0a ∉ line) ∧
    (lines.flatMap (· ++ [0x0a]) = text ∨
      lines.flatMap (· ++ [0x0a]) = text ++ [0x0a] ∧ lines.getLast? ≠ some [])

theorem not_mem_of_mem_splitOn {a : UInt8} {text piece : Bytes} (h : piece ∈ text.splitOn a) :
    a ∉ piece := by
  induction text generalizing piece with
  | nil =>
    rw [List.splitOn_nil, List.mem_singleton] at h
    simp [h]
  | cons b text ih =>
    rw [List.splitOn_eq_splitOnP, List.splitOnP_cons_eq_if_modifyHead,
      ← List.splitOn_eq_splitOnP] at h
    obtain ⟨first, more, hsplit⟩ := List.exists_cons_of_ne_nil (List.splitOn_ne_nil a text)
    rw [hsplit] at h ih
    by_cases hb : b = a
    · rw [if_pos (beq_iff_eq.mpr hb), List.mem_cons] at h
      rcases h with rfl | h
      · exact List.not_mem_nil
      · exact ih h
    · rw [if_neg (by simpa using hb), List.modifyHead_cons, List.mem_cons] at h
      rcases h with rfl | h
      · have hfirst := ih List.mem_cons_self
        simp [Ne.symm hb, hfirst]
      · exact ih (List.mem_cons_of_mem first h)

theorem intercalate_concat {α : Type} (a : α) (pieces : List (List α)) (last : List α) :
    List.intercalate [a] (pieces ++ [last]) = pieces.flatMap (· ++ [a]) ++ last := by
  induction pieces with
  | nil => simp [List.intercalate]
  | cons piece pieces ih =>
    have hne : pieces ++ [last] ≠ [] := by simp
    obtain ⟨next, more, hcons⟩ := List.exists_cons_of_ne_nil hne
    rw [List.flatMap_cons, List.append_assoc, ← ih, List.cons_append, hcons]
    simp [List.intercalate]

theorem lines_makeUp (text : Bytes) : MakeUp text (lines text) := by
  have hpieces : ∀ piece ∈ text.splitOn 0x0a, 0x0a ∉ piece :=
    fun _ => not_mem_of_mem_splitOn
  have htext := @List.intercalate_splitOn _ text _ _ 0x0a
  obtain ⟨pieces, last, hsplit⟩ :=
    List.eq_nil_or_concat (text.splitOn 0x0a) |>.resolve_left (List.splitOn_ne_nil 0x0a text)
  rw [List.concat_eq_append] at hsplit
  rw [hsplit] at hpieces htext
  rw [intercalate_concat] at htext
  rw [lines, hsplit]
  simp only [List.getLast?_concat, List.dropLast_concat]
  by_cases hlast : last = []
  · rw [if_pos (congrArg some hlast)]
    refine ⟨fun line hline => hpieces line (List.mem_append_left _ hline), .inl ?_⟩
    rw [← htext, hlast, List.append_nil]
  · rw [if_neg (by simpa using hlast)]
    refine ⟨hpieces, .inr ⟨?_, by simpa using hlast⟩⟩
    rw [← htext, List.flatMap_append, List.flatMap_singleton, List.append_assoc]

end Listing

theorem Emitter.emit_untraced {σ : Type} [Sink σ] {e : Emitter σ}
    (h : e.options.tracing = false) (c : Call) :
    (e.emit c).options = e.options ∧ (e.emit c).events = e.events := by
  obtain ⟨options, sink, rejection, events⟩ := e
  cases rejection with
  | some r => exact ⟨rfl, rfl⟩
  | none =>
    rw [emit]
    cases c.encode options.features <;> simp_all [record]

/-- Emitters that can be told apart only by what their sinks keep. -/
structure Emitter.Alike {σ τ : Type} [Sink σ] [Sink τ] (e : Emitter σ) (e' : Emitter τ) :
    Prop where
  options : e.options = e'.options
  rejection : e.rejection = e'.rejection
  events : e.events = e'.events
  offset : e.offset = e'.offset

theorem Emitter.Alike.emit {σ τ : Type} [Sink σ] [LawfulSink σ] [Sink τ] [LawfulSink τ]
    {e : Emitter σ} {e' : Emitter τ} (h : e.Alike e') (c : Call) :
    (e.emit c).Alike (e'.emit c) := by
  obtain ⟨options, sink, rejection, events⟩ := e
  obtain ⟨options', sink', rejection', events'⟩ := e'
  obtain ⟨hoptions, hrejection, hevents, hoffset⟩ := h
  cases hoptions
  cases hrejection
  cases hevents
  change Sink.position sink = Sink.position sink' at hoffset
  cases rejection with
  | some r => exact ⟨rfl, rfl, rfl, hoffset⟩
  | none =>
    cases hc : c.encode options.features with
    | error r =>
      simp only [Emitter.emit, hc, hoffset]
      exact ⟨rfl, rfl, rfl, hoffset⟩
    | ok w =>
      simp only [Emitter.emit, hc, hoffset]
      refine ⟨rfl, rfl, rfl, ?_⟩
      change Sink.position (Sink.append sink w) = Sink.position (Sink.append sink' w)
      rw [LawfulSink.position_append, LawfulSink.position_append, hoffset]

/-- One thing to encode: a line with its number in the input of the given title. An input that
cannot be read is a stage of its own. -/
inductive Stage
  | unreadable (reason : String)
  | line (title : Bytes) (number : Nat) (text : Bytes)
  deriving DecidableEq

namespace Stage

def ofLines (title : Bytes) (number : Nat) (lines : List Bytes) : List Stage :=
  (lines.zipIdx number).map fun entry => line title entry.2 entry.1

variable {σ : Type} [Sink σ]

/-- Why a stage fails on an emitter: the input cannot be read, the line has 65536 bytes or more, or
the line is not accepted. -/
def failure (e : Emitter σ) : Stage → Option InputFailure
  | unreadable reason => some (.unreadable reason)
  | line title number text =>
    if text.length < 65536 then
      (Listing.step e (Listing.dropReturn text)).2.map fun error =>
        .listing title (.line number error)
    else some (.listing title .lineTooLong)

def next (e : Emitter σ) : Stage → Emitter σ
  | unreadable _ => e
  | line _ _ text =>
    if text.length < 65536 then (Listing.step e (Listing.dropReturn text)).1 else e

/-- The words of the call that a line holds, made on an emitter of its own. -/
def words (features : FeatureSet) : Stage → List Word
  | unreadable _ => []
  | line _ _ text =>
    match Line.parse (Listing.dropReturn text) with
    | .ok (some c) => c.words features
    | _ => []

def after (e : Emitter σ) (stages : List Stage) (k : Nat) : Emitter σ :=
  (stages.take k).foldl next e

def Succeed (e : Emitter σ) (stages : List Stage) : Prop :=
  ∀ (k : Nat) (s : Stage), stages[k]? = some s → s.failure (after e stages k) = none

def FailsFirst (e : Emitter σ) (stages : List Stage) (k : Nat) (f : InputFailure) : Prop :=
  (∀ (j : Nat) (s : Stage), j < k → stages[j]? = some s → s.failure (after e stages j) = none) ∧
    ∃ s : Stage, stages[k]? = some s ∧ s.failure (after e stages k) = some f

def run (e : Emitter σ) : List Stage → Emitter σ × Option InputFailure
  | [] => (e, none)
  | s :: rest =>
    match s.failure e with
    | some f => (s.next e, some f)
    | none => run (s.next e) rest

/-- Stages that are gone through either all succeed, or there is a first one that fails. -/
theorem run_cases (e : Emitter σ) (stages : List Stage) :
    (Succeed e stages ∧ run e stages = (stages.foldl next e, none)) ∨
      ∃ k f, FailsFirst e stages k f ∧ run e stages = (after e stages (k + 1), some f) := by
  induction stages generalizing e with
  | nil =>
    refine .inl ⟨?_, rfl⟩
    intro k s hs
    cases hs
  | cons s rest ih =>
    cases hs : s.failure e with
    | some f =>
      refine .inr ⟨0, f, ⟨?_, s, rfl, hs⟩, ?_⟩
      · intro j _ hj
        exact absurd hj (Nat.not_lt_zero j)
      · rw [run, hs]
        rfl
    | none =>
      rw [run, hs]
      rcases ih (s.next e) with ⟨hsucceed, hrun⟩ | ⟨k, f, ⟨hbefore, t, ht, hfails⟩, hrun⟩
      · refine .inl ⟨?_, hrun⟩
        intro k t ht
        cases k with
        | zero =>
          cases ht
          exact hs
        | succ k => exact hsucceed k t ht
      · refine .inr ⟨k + 1, f, ⟨?_, t, ht, hfails⟩, hrun⟩
        intro j t hj ht
        cases j with
        | zero =>
          cases ht
          exact hs
        | succ j => exact hbefore j t (Nat.lt_of_succ_lt_succ hj) ht

theorem succeed_iff_run {e : Emitter σ} {stages : List Stage} :
    Succeed e stages ↔ (run e stages).2 = none := by
  rcases run_cases e stages with ⟨hsucceed, hrun⟩ | ⟨k, f, ⟨_, s, hs, hfails⟩, hrun⟩
  · simp [hsucceed, hrun]
  · refine ⟨fun h => ?_, fun h => ?_⟩
    · rw [h k s hs] at hfails
      cases hfails
    · rw [hrun] at h
      cases h

instance (e : Emitter σ) (stages : List Stage) : Decidable (Succeed e stages) :=
  decidable_of_iff _ succeed_iff_run.symm

theorem message_of_line {e : Emitter σ} {title text : Bytes} {number : Nat} {f : InputFailure}
    (hlength : text.length < 65536) (h : (line title number text).failure e = some f) :
    ∃ error, (Listing.step e (Listing.dropReturn text)).2 = some error ∧
      f.message =
        Text.display title ++ ":" ++ Text.decimal number ++ ": " ++ error.message := by
  rw [failure, if_pos hlength] at h
  obtain ⟨error, herror, rfl⟩ := Option.map_eq_some_iff.mp h
  exact ⟨error, herror, rfl⟩

theorem next_of_open {e : Emitter σ} (h : e.rejection = none) {s : Stage}
    (hs : s.failure e = none) :
    (s.next e).options = e.options ∧ (s.next e).rejection = none ∧
      (s.next e).sink = (s.words e.options.features).foldl Sink.append e.sink := by
  cases s with
  | unreadable reason => cases hs
  | line title number text =>
    by_cases hlength : text.length < 65536
    · rw [failure, if_pos hlength, Option.map_eq_none_iff] at hs
      rw [next, if_pos hlength, words]
      rw [Listing.step] at hs ⊢
      cases hparse : Line.parse (Listing.dropReturn text) with
      | error error =>
        rw [hparse] at hs
        cases hs
      | ok call =>
        cases call with
        | none => exact ⟨rfl, h, rfl⟩
        | some c =>
          rw [hparse] at hs
          obtain ⟨hoptions, hsink, _⟩ := Emitter.emit_of_open h c
          exact ⟨hoptions, Option.map_eq_none_iff.mp hs, hsink⟩
    · rw [failure, if_neg hlength] at hs
      cases hs

theorem foldl_next_of_succeed {e : Emitter σ} (h : e.rejection = none) {stages : List Stage}
    (hs : Succeed e stages) :
    (stages.foldl next e).sink =
      (stages.flatMap (words e.options.features)).foldl Sink.append e.sink := by
  induction stages generalizing e with
  | nil => rfl
  | cons s rest ih =>
    obtain ⟨hoptions, hopen, hsink⟩ := next_of_open h (hs 0 s rfl)
    have hrest : Succeed (s.next e) rest := fun k t ht => hs (k + 1) t ht
    rw [List.foldl_cons, ih hopen hrest, hoptions, hsink, List.flatMap_cons, List.foldl_append]

theorem next_untraced {e : Emitter σ} (h : e.options.tracing = false) (s : Stage) :
    (s.next e).options = e.options ∧ (s.next e).events = e.events := by
  cases s with
  | unreadable reason => exact ⟨rfl, rfl⟩
  | line title number text =>
    by_cases hlength : text.length < 65536
    · rw [next, if_pos hlength, Listing.step]
      split
      · exact ⟨rfl, rfl⟩
      · exact ⟨rfl, rfl⟩
      · exact Emitter.emit_untraced h _
    · rw [next, if_neg hlength]
      exact ⟨rfl, rfl⟩

theorem after_untraced {e : Emitter σ} (h : e.options.tracing = false) (stages : List Stage)
    (k : Nat) : (after e stages k).events = e.events := by
  rw [after]
  induction stages.take k generalizing e with
  | nil => rfl
  | cons s rest ih =>
    obtain ⟨hoptions, hevents⟩ := next_untraced h s
    rw [List.foldl_cons, ih (by rw [hoptions, h]), hevents]

theorem run_append (e : Emitter σ) (a b : List Stage) :
    run e (a ++ b) =
      match run e a with
      | (e, some f) => (e, some f)
      | (e, none) => run e b := by
  induction a generalizing e with
  | nil => rfl
  | cons s rest ih =>
    rw [List.cons_append, run, run]
    cases s.failure e with
    | some f => rfl
    | none => exact ih (s.next e)

theorem encodeLines_eq_run (title : Bytes) (number : Nat) (e : Emitter σ) (lines : List Bytes) :
    run e (ofLines title number lines) =
      ((Listing.encodeLines number e lines).1,
        (Listing.encodeLines number e lines).2.map (.listing title)) := by
  induction lines generalizing number e with
  | nil => rfl
  | cons line rest ih =>
    have hcons : ofLines title number (line :: rest) =
        .line title number line :: ofLines title (number + 1) rest := rfl
    rw [hcons, run, Listing.encodeLines, failure, next, Listing.lineLimit]
    by_cases hlong : 65535 < line.length
    · rw [if_pos hlong, if_neg (by omega), if_neg (by omega)]
      rfl
    · rw [if_neg hlong, if_pos (by omega), if_pos (by omega)]
      rcases Listing.step e (Listing.dropReturn line) with ⟨e', _ | error⟩
      · exact ih (number + 1) e'
      · rfl

theorem next_of_alike {τ : Type} [LawfulSink σ] [Sink τ] [LawfulSink τ] {e : Emitter σ}
    {e' : Emitter τ} (h : e.Alike e') (s : Stage) :
    s.failure e = s.failure e' ∧ (s.next e).Alike (s.next e') := by
  cases s with
  | unreadable reason => exact ⟨rfl, h⟩
  | line title number text =>
    by_cases hlength : text.length < 65536
    · simp only [failure, next, if_pos hlength, Listing.step]
      cases Line.parse (Listing.dropReturn text) with
      | error error => exact ⟨rfl, h⟩
      | ok call =>
        cases call with
        | none => exact ⟨rfl, h⟩
        | some c => exact ⟨by simp only [(h.emit c).rejection], h.emit c⟩
    · simp only [failure, next, if_neg hlength]
      exact ⟨trivial, h⟩

/-- Which stage fails, and what is logged up to it, does not depend on the sink. -/
theorem run_of_alike {τ : Type} [LawfulSink σ] [Sink τ] [LawfulSink τ] {e : Emitter σ}
    {e' : Emitter τ} (h : e.Alike e') (stages : List Stage) :
    (run e stages).2 = (run e' stages).2 ∧ (run e stages).1.Alike (run e' stages).1 := by
  induction stages generalizing e e' with
  | nil => exact ⟨rfl, h⟩
  | cons s rest ih =>
    obtain ⟨hfailure, hnext⟩ := next_of_alike h s
    rw [run, run, ← hfailure]
    cases s.failure e with
    | some f => exact ⟨rfl, hnext⟩
    | none => exact ih hnext

theorem succeed_of_alike {τ : Type} [LawfulSink σ] [Sink τ] [LawfulSink τ] {e : Emitter σ}
    {e' : Emitter τ} (h : e.Alike e') {stages : List Stage} (hs : Succeed e stages) :
    Succeed e' stages := by
  rw [succeed_iff_run] at hs ⊢
  rw [← (run_of_alike h stages).1]
  exact hs

theorem run_of_succeed {e : Emitter σ} {stages : List Stage} (h : Succeed e stages) :
    run e stages = (stages.foldl next e, none) := by
  rcases run_cases e stages with ⟨-, hrun⟩ | ⟨k, f, -, hrun⟩
  · exact hrun
  · rw [succeed_iff_run, hrun] at h
    cases h

end Stage

namespace Inputs

/-- The stages of inputs in the order of their names. Standard input has no lines left when it is
named again. -/
def stages (i : Inputs) : List Bytes → List Stage
  | [] => []
  | name :: names =>
    if name = standardInputName then
      Stage.ofLines standardTitle 1 (Listing.lines i.standard) ++ stages ⟨[], i.files⟩ names
    else
      match i.files name with
      | .error reason => .unreadable reason :: i.stages names
      | .ok text => Stage.ofLines name 1 (Listing.lines text) ++ i.stages names

variable {σ : Type} [Sink σ]

theorem encode_cons_of_take {i rest : Inputs} {name text : Bytes}
    (h : i.take name = (.ok text, rest)) (e : Emitter σ) (names : List Bytes)
    (hrest : ∀ e : Emitter σ, rest.encode e names = Stage.run e (rest.stages names)) :
    i.encode e (name :: names) =
      Stage.run e (Stage.ofLines (title name) 1 (Listing.lines text) ++ rest.stages names) := by
  rw [encode, h, Stage.run_append, Stage.encodeLines_eq_run]
  simp only [Listing.encode]
  rcases Listing.encodeLines 1 e (Listing.lines text) with ⟨e', _ | failure⟩
  · exact hrest e'
  · rfl

theorem encode_eq_run (i : Inputs) (e : Emitter σ) (names : List Bytes) :
    i.encode e names = Stage.run e (i.stages names) := by
  induction names generalizing i e with
  | nil => rfl
  | cons name names ih =>
    rw [stages]
    by_cases hname : name = standardInputName
    · have htake : i.take name = (.ok i.standard, ⟨[], i.files⟩) := if_pos hname
      rw [if_pos hname, encode_cons_of_take htake e names (ih _ ·), title, if_pos hname]
    · have htake : i.take name = (i.files name, i) := if_neg hname
      rw [if_neg hname]
      cases hread : i.files name with
      | error reason =>
        rw [encode, htake, hread]
        rfl
      | ok text =>
        rw [hread] at htake
        rw [encode_cons_of_take htake e names (ih i ·), title, if_neg hname]

end Inputs

end ScalableVector
