import Mathlib.Data.List.Induction
import ScalableVector.Proofs.Release

/-!
# Segments as tapes

A segment is a log as long as no buffer is reset that starts behind the written part. Without this
bound it is a tape. A reset moves the head to the start of the buffer, back or forth, and erases
nothing: a buffer that was handed out before the head was moved back brings the bytes behind the
head into the written part again.
-/

namespace ScalableVector.Segment

open Memory (overlaid overlaid_nil)

def written (s : Segment) : Bytes := s.code.toList.take s.size

inductive Edit
  | next
  | write (buffer : Nat) (word : Word)
  | reset (buffer : Nat)
  deriving DecidableEq

def Edit.use : Edit → Use
  | next => .next
  | write k w => .write k w
  | reset k => .reset k

def Session.edited (system : System) (edits : List Edit) : Session :=
  (start none).history (edits.map fun e => (system, e.use))

theorem Session.edited_concat (system : System) (edits : List Edit) (e : Edit) :
    edited system (edits ++ [e]) = (edited system edits).use system e.use := by
  rw [edited, history, List.map_append, List.foldl_append]
  rfl

section Overlaid

variable {cells new : Bytes} {place : Nat}

theorem length_overlaid (h : place ≤ cells.length) :
    (overlaid cells place new).length = max cells.length (place + new.length) := by
  simp only [overlaid, List.length_append, List.length_take, List.length_drop]
  omega

theorem overlaid_prefix (h : place ≤ cells.length) (new rest : Bytes) :
    overlaid cells place new <+: overlaid (cells ++ rest) place new := by
  refine ⟨rest.drop (place + new.length - cells.length), ?_⟩
  rw [overlaid, overlaid, List.take_append_of_le_length h, List.drop_append, List.append_assoc _ _
    (rest.drop _)]

theorem getElem?_overlaid (h : place ≤ cells.length) {i : Nat} (hi : place + new.length ≤ i) :
    (overlaid cells place new)[i]? = cells[i]? := by
  have hfront : (cells.take place ++ new).length = place + new.length := by
    rw [List.length_append, List.length_take, Nat.min_eq_left h]
  rw [overlaid, List.getElem?_append_right (by omega), hfront, List.getElem?_drop]
  congr 1
  omega

end Overlaid

/-- Cells that keep what was written to them last, the place of the head, and the buffers that were
handed out. -/
structure Tape where
  cells : Bytes
  head : Nat
  buffers : List Buffer

namespace Tape

def written (t : Tape) : Bytes := t.cells.take t.head

def put (t : Tape) (new : Bytes) : Tape :=
  ⟨overlaid t.cells t.head new, t.head + new.length, t.buffers⟩

def mark (t : Tape) : Tape := { t with buffers := t.buffers ++ [⟨t.head⟩] }

def edit (t : Tape) : Edit → Tape
  | .next => (t.put (List.replicate (padding t.head) 0)).mark
  | .write k w => if k < t.buffers.length then t.put w.bytes else t
  | .reset k =>
    match t.buffers[k]? with
    | some b => { t with head := b.offset }
    | none => t

def edited (edits : List Edit) : Tape := edits.foldl edit ⟨[], 0, []⟩

theorem edited_concat (edits : List Edit) (e : Edit) :
    edited (edits ++ [e]) = (edited edits).edit e := by
  rw [edited, List.foldl_append]
  rfl

/-- What an edit does to the head: it moves it on and hands out no buffer elsewhere, or it moves it
to the start of a buffer. -/
theorem edit_cases (t : Tape) (e : Edit) :
    (t.head ≤ (t.edit e).head ∧
      ∀ b ∈ (t.edit e).buffers, b ∈ t.buffers ∨ b.offset = (t.edit e).head) ∨
      ∃ k a, e = .reset k ∧ t.buffers[k]? = some a ∧ t.edit e = { t with head := a.offset } := by
  cases e with
  | next =>
    refine .inl ⟨Nat.le_add_right _ _, ?_⟩
    intro b hb
    rcases List.mem_append.mp hb with hold | hnew
    · exact .inl hold
    · rw [List.mem_singleton.mp hnew]
      exact .inr rfl
  | write k w =>
    rw [edit]
    split
    · exact .inl ⟨Nat.le_add_right _ _, fun b hb => .inl hb⟩
    · exact .inl ⟨Nat.le_refl _, fun b hb => .inl hb⟩
  | reset k =>
    cases hk : t.buffers[k]? with
    | none =>
      simp only [edit, hk]
      exact .inl ⟨Nat.le_refl _, fun b hb => .inl hb⟩
    | some a => exact .inr ⟨k, a, rfl, hk, by simp only [edit, hk]⟩

theorem cells_edit {t : Tape} (h : t.head ≤ t.cells.length) (e : Edit) {i : Nat}
    (hi : (t.edit e).head ≤ i) : (t.edit e).cells[i]? = t.cells[i]? := by
  cases e with
  | next => exact getElem?_overlaid h hi
  | write k w =>
    by_cases hk : k < t.buffers.length
    · simp only [edit, if_pos hk] at hi ⊢
      exact getElem?_overlaid h hi
    · simp only [edit, if_neg hk]
  | reset k =>
    rw [edit]
    split <;> rfl

end Tape

namespace Session

/-- The memory of the session starts with the cells of the tape, and can be enlarged. The written
part ends at the head. All buffers start within the cells. -/
structure Shows (s : Session) (t : Tape) : Prop where
  mapped : ∀ m ∈ s.segment.memory, m.IsMapping
  cells : t.cells <+: s.segment.code.toList
  head : s.segment.size = t.head
  head_le : t.head ≤ t.cells.length
  buffers : s.buffers = t.buffers
  offset_le : ∀ b ∈ t.buffers, b.offset ≤ t.cells.length

namespace Shows

variable {system : System} {s : Session} {t : Tape}

theorem blank : (start none).Shows ⟨[], 0, []⟩ :=
  ⟨nofun, List.nil_prefix, rfl, Nat.le_refl 0, rfl, nofun⟩

theorem written (h : s.Shows t) : s.segment.written = t.written := by
  obtain ⟨rest, hrest⟩ := h.cells
  rw [Segment.written, Tape.written, ← hrest, h.head, List.take_append_of_le_length h.head_le]

theorem put (hsystem : system.Ample) (h : s.Shows t) (new : Bytes) :
    ∃ memory, grown system s.segment.memory (t.head + new.length) = .ok memory ∧
      Shows ⟨⟨memory.map (·.poke t.head new), t.head + new.length⟩, s.buffers⟩ (t.put new) := by
  obtain ⟨memory, hgrown, hmapped, hlength, hprefix⟩ :=
    grown_of_ample hsystem h.mapped (t.head + new.length)
  refine ⟨memory, hgrown, ?_, ?_, rfl, ?_, h.buffers, ?_⟩
  · intro m hm
    obtain ⟨old, hold, rfl⟩ := Option.map_eq_some_iff.mp hm
    exact hmapped old hold
  · cases memory with
    | none =>
      -- no memory is needed for no bytes
      have hnil : t.head + new.length ≤ 0 := hlength
      have hnew : new = [] := List.eq_nil_of_length_eq_zero (by omega)
      rw [hnew, Tape.put, overlaid_nil]
      exact h.cells.trans hprefix
    | some m =>
      obtain ⟨rest, hrest⟩ := h.cells.trans hprefix
      have hover := overlaid_prefix h.head_le new rest
      have hfits : t.head + new.length ≤ m.bytes.size := hlength
      rw [hrest] at hover
      change overlaid t.cells t.head new <+: (Memory.overwrite m.bytes t.head new).toList
      rw [Memory.toList_overwrite hfits]
      exact hover
  · rw [Tape.put, length_overlaid h.head_le]
    exact Nat.le_max_right _ _
  · intro b hb
    rw [Tape.put, length_overlaid h.head_le]
    exact Nat.le_trans (h.offset_le b hb) (Nat.le_max_left _ _)

theorem mark (h : s.Shows t) : Shows ⟨s.segment, s.buffers ++ [⟨t.head⟩]⟩ t.mark := by
  refine ⟨h.mapped, h.cells, h.head, h.head_le, by rw [h.buffers, Tape.mark], ?_⟩
  intro b hb
  rcases List.mem_append.mp hb with hold | hnew
  · exact h.offset_le b hold
  · rw [List.mem_singleton.mp hnew]
    exact h.head_le

theorem openBuffer (hsystem : system.Ample) (h : s.Shows t) :
    ∃ b segment, s.segment.openBuffer system = (.ok b, segment) ∧
      Shows ⟨segment, s.buffers ++ [b]⟩ (t.edit .next) := by
  obtain ⟨memory, hgrown, hput⟩ := h.put hsystem (List.replicate (padding t.head) 0)
  rw [List.length_replicate] at hgrown
  refine ⟨_, _, ?_, hput.mark⟩
  simp only [Segment.openBuffer, h.head, hgrown, Tape.put, List.length_replicate]

theorem writeWord (hsystem : system.Ample) (h : s.Shows t) (w : Word) :
    ∃ segment, s.segment.writeWord system w = (.ok (), segment) ∧
      Shows ⟨segment, s.buffers⟩ (t.put w.bytes) := by
  obtain ⟨memory, hgrown, hput⟩ := h.put hsystem w.bytes
  refine ⟨_, ?_, hput⟩
  change grown system s.segment.memory (t.head + 4) = .ok memory at hgrown
  simp only [Segment.writeWord, h.head, hgrown]
  rfl

theorem reset (h : s.Shows t) {b : Buffer} (hb : b ∈ t.buffers) :
    Shows ⟨s.segment.reset b, s.buffers⟩ { t with head := b.offset } :=
  ⟨h.mapped, h.cells, rfl, h.offset_le b hb, h.buffers, h.offset_le⟩

theorem edit (hsystem : system.Ample) (h : s.Shows t) (e : Edit) :
    (s.use system e.use).Shows (t.edit e) := by
  cases e with
  | next =>
    obtain ⟨b, segment, hopen, hshows⟩ := h.openBuffer hsystem
    rw [Edit.use, use, hopen]
    exact hshows
  | write k w =>
    obtain ⟨segment, hwrite, hshows⟩ := h.writeWord hsystem w
    rw [Edit.use, use, Tape.edit, h.buffers, hwrite]
    split
    · exact h.buffers ▸ hshows
    · exact h
  | reset k =>
    rw [Edit.use, use, Tape.edit, h.buffers]
    cases hb : t.buffers[k]? with
    | none => exact h
    | some b => exact h.buffers ▸ h.reset (List.mem_of_getElem? hb)

end Shows

variable {system : System}

/-- A segment is a tape, in whatever order its buffers are used. -/
theorem edited_shows (hsystem : system.Ample) (edits : List Edit) :
    (edited system edits).Shows (.edited edits) := by
  induction edits using List.reverseRecOn with
  | nil => exact Shows.blank
  | append_singleton edits e ih =>
    rw [edited_concat, Tape.edited_concat]
    exact ih.edit hsystem e

theorem size_edited (hsystem : system.Ample) (edits : List Edit) :
    (edited system edits).segment.size = (Tape.edited edits).head :=
  (edited_shows hsystem edits).head

theorem buffers_edited (hsystem : system.Ample) (edits : List Edit) :
    (edited system edits).buffers = (Tape.edited edits).buffers :=
  (edited_shows hsystem edits).buffers

theorem segment_edited_reset {edits : List Edit} {k : Nat} {b : Buffer}
    (hb : (edited system edits).buffers[k]? = some b) :
    (edited system (edits ++ [.reset k])).segment = (edited system edits).segment.reset b := by
  rw [edited_concat, Edit.use, use, hb]

theorem cells_edited (hsystem : system.Ample) {front back : List Edit} {i : Nat}
    (h : ∀ mid, mid <+: back → (edited system (front ++ mid)).segment.size ≤ i) :
    (Tape.edited (front ++ back)).cells[i]? = (Tape.edited front).cells[i]? := by
  induction back using List.reverseRecOn with
  | nil => rw [List.append_nil]
  | append_singleton back e ih =>
    have hlast := h _ List.prefix_rfl
    rw [← List.append_assoc, size_edited hsystem, Tape.edited_concat] at hlast
    rw [← List.append_assoc, Tape.edited_concat,
      Tape.cells_edit (edited_shows hsystem (front ++ back)).head_le e hlast]
    apply ih
    intro mid hmid
    exact h mid (hmid.trans (List.prefix_append back [e]))

/-- After the buffer was handed out, one that starts in front of it was reset, and the written part
has ended in front of the buffer ever since. -/
structure Bypassed (system : System) (edits : List Edit) (b : Buffer) (front : List Edit)
    (j : Nat) (back : List Edit) : Prop where
  split : edits = front ++ .reset j :: back
  opened : b ∈ (edited system front).buffers
  earlier : ∃ a, (edited system front).buffers[j]? = some a ∧ a.offset < b.offset
  short : ∀ mid, mid <+: back →
    (edited system (front ++ .reset j :: mid)).segment.size < b.offset

namespace Bypassed

variable {edits front back : List Edit} {b : Buffer} {j : Nat}

theorem size_lt (h : Bypassed system edits b front j back) :
    (edited system edits).segment.size < b.offset := by
  rw [h.split]
  exact h.short back List.prefix_rfl

theorem concat (h : Bypassed system edits b front j back) {e : Edit}
    (hshort : (edited system (edits ++ [e])).segment.size < b.offset) :
    Bypassed system (edits ++ [e]) b front j (back ++ [e]) := by
  have hsplit : edits ++ [e] = front ++ .reset j :: (back ++ [e]) := by
    rw [h.split, List.append_assoc, List.cons_append]
  refine ⟨hsplit, h.opened, h.earlier, ?_⟩
  intro mid hmid
  rcases List.prefix_concat_iff.mp hmid with rfl | hmid
  · rwa [← hsplit]
  · exact h.short mid hmid

/-- The bytes between the written part and the buffer that nothing was written over are those that
were there when the buffer in front was reset. -/
theorem cells (hsystem : system.Ample) (h : Bypassed system edits b front j back) {i : Nat}
    (hi : ∀ mid, mid <+: back → (edited system (front ++ .reset j :: mid)).segment.size ≤ i) :
    (Tape.edited edits).cells[i]? = (Tape.edited front).cells[i]? := by
  obtain ⟨a, ha, -⟩ := h.earlier
  have hback : (Tape.edited edits).cells[i]? = (Tape.edited (front ++ [.reset j])).cells[i]? := by
    rw [h.split, List.append_cons]
    apply cells_edited hsystem
    intro mid hmid
    rw [← List.append_cons]
    exact hi mid hmid
  rw [buffers_edited hsystem] at ha
  rw [hback, Tape.edited_concat, Tape.edit, ha]

end Bypassed

-- The last edit has moved the head on, and then the buffer was bypassed before, or it is the reset
-- that bypasses the buffer.
theorem exists_bypassed (hsystem : system.Ample) {edits : List Edit} {b : Buffer}
    (hb : b ∈ (edited system edits).buffers) (h : (edited system edits).segment.size < b.offset) :
    ∃ front j back, Bypassed system edits b front j back := by
  induction edits using List.reverseRecOn with
  | nil => cases hb
  | append_singleton edits e ih =>
    have hsize := h
    rw [size_edited hsystem, Tape.edited_concat] at hsize
    rw [buffers_edited hsystem, Tape.edited_concat] at hb
    rcases (Tape.edited edits).edit_cases e with ⟨hhead, hnew⟩ | ⟨k, a, rfl, ha, hedit⟩
    · have hold : b ∈ (edited system edits).buffers := by
        rw [buffers_edited hsystem]
        exact (hnew b hb).resolve_right (by omega)
      have hbefore : (edited system edits).segment.size < b.offset := by
        rw [size_edited hsystem]
        omega
      obtain ⟨front, j, back, hbypassed⟩ := ih hold hbefore
      exact ⟨front, j, back ++ [e], hbypassed.concat h⟩
    · rw [hedit] at hb hsize
      rw [← buffers_edited hsystem] at hb ha
      refine ⟨edits, k, [], rfl, hb, ⟨a, ha, hsize⟩, ?_⟩
      intro mid hmid
      rw [List.prefix_nil.mp hmid]
      exact h

/-- What a reset does to a segment that was used in any order, on a system that has memory to give.
The written part is what the tape
holds in front of its head, and after the reset what the tape holds in front of the buffer. If the
buffer starts within the written part, the rest of this part is discarded. Otherwise the reset makes
the written part longer. It does so exactly if a buffer that starts in front of this one was reset
after this one was handed out and the written part has not come back to this one since; and then
each byte that the first of the two resets has discarded, and that nothing was written over, is part
of the segment again. -/
theorem reset_in_any_order (hsystem : system.Ample) (edits : List Edit) {k : Nat} {b : Buffer}
    (hb : (edited system edits).buffers[k]? = some b) :
    let s := (edited system edits).segment
    let s' := (edited system (edits ++ [.reset k])).segment
    s.written = (Tape.edited edits).written ∧
    s'.size = b.offset ∧ s'.written = (Tape.edited edits).cells.take b.offset ∧
    (b.offset ≤ s.size → s'.written = s.written.take b.offset) ∧
    (s.size < s'.size ↔ ∃ front j back, Bypassed system edits b front j back) ∧
    ∀ front j back, Bypassed system edits b front j back →
      ∀ i, i < (edited system front).segment.size → i < b.offset →
        (∀ mid, mid <+: back → (edited system (front ++ .reset j :: mid)).segment.size ≤ i) →
          s.size ≤ i ∧ i < s'.size ∧
            s'.written[i]? = (edited system front).segment.written[i]? := by
  intro s s'
  have hshows := edited_shows hsystem edits
  have hmem : b ∈ (edited system edits).buffers := List.mem_of_getElem? hb
  have hsegment : s' = s.reset b := segment_edited_reset hb
  have hsize : s'.size = b.offset := by rw [hsegment, reset]
  have hwritten : s'.written = (Tape.edited edits).cells.take b.offset := by
    rw [hsegment]
    exact (hshows.reset (hshows.buffers ▸ hmem)).written
  refine ⟨hshows.written, hsize, hwritten, ?_, ?_, ?_⟩
  · intro hle
    rw [hwritten, hshows.written, Tape.written, List.take_take, ← hshows.head,
      Nat.min_eq_left hle]
  · rw [hsize]
    constructor
    · exact exists_bypassed hsystem hmem
    · rintro ⟨front, j, back, hbypassed⟩
      exact hbypassed.size_lt
  · intro front j back hbypassed i hfront hi hmids
    have hlast : s.size ≤ i := by
      have hend := hmids back List.prefix_rfl
      rwa [← hbypassed.split] at hend
    refine ⟨hlast, hsize ▸ hi, ?_⟩
    rw [hwritten, (edited_shows hsystem front).written, Tape.written, ← size_edited hsystem,
      List.getElem?_take_of_lt hi, List.getElem?_take_of_lt hfront]
    exact hbypassed.cells hsystem hmids

private def olderFirst : List Edit := [.next, .write 0 0x04a20020, .next, .reset 0]

private theorem bypassed_olderFirst :
    Bypassed .unlimited olderFirst ⟨16⟩ [.next, .write 0 0x04a20020, .next] 0 [] := by
  refine ⟨rfl, ?_, ⟨⟨0⟩, ?_, by decide⟩, ?_⟩
  · rw [buffers_edited System.unlimited_ample]
    exact List.mem_of_getElem? (i := 1) rfl
  · rw [buffers_edited System.unlimited_ample]
    rfl
  · intro mid hmid
    rw [List.prefix_nil.mp hmid, size_edited System.unlimited_ample]
    decide

theorem reset_in_any_order_older_first :
    let s := (edited .unlimited olderFirst).segment
    let s' := (edited .unlimited (olderFirst ++ [.reset 1])).segment
    s.size = 0 ∧ s'.size = 16 ∧ s'.written = [0x20, 0x00, 0xa2, 0x04] ++ List.replicate 12 0 ∧
      s'.written[2]? =
        (edited .unlimited [.next, .write 0 0x04a20020, .next]).segment.written[2]? := by
  have hb : (edited .unlimited olderFirst).buffers[1]? = some ⟨16⟩ := by
    rw [buffers_edited System.unlimited_ample]
    rfl
  have hempty : (edited .unlimited olderFirst).segment.size = 0 := by
    rw [size_edited System.unlimited_ample]
    rfl
  have hfull : (edited .unlimited [.next, .write 0 0x04a20020, .next]).segment.size = 16 := by
    rw [size_edited System.unlimited_ample]
    rfl
  obtain ⟨-, hsize, hwritten, -, -, hback⟩ := 
    reset_in_any_order System.unlimited_ample olderFirst hb
  refine ⟨hempty, hsize, hwritten.trans rfl, ?_⟩
  refine (hback _ _ _ bypassed_olderFirst 2 (by omega) (by decide) ?_).2.2
  intro mid hmid
  rw [List.prefix_nil.mp hmid]
  exact Nat.le_trans (Nat.le_of_eq hempty) (by decide)

/-- A reset can make the written part longer. -/
theorem reset_enlarges :
    ¬∀ (edits : List Edit) (k : Nat),
      (edited .unlimited (edits ++ [.reset k])).segment.size ≤
        (edited .unlimited edits).segment.size := by
  intro h
  have hle := h olderFirst 1
  rw [size_edited System.unlimited_ample, size_edited System.unlimited_ample] at hle
  exact absurd hle (by decide)

end Session

end ScalableVector.Segment
