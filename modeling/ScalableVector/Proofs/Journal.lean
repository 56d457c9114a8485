import ScalableVector.Proofs.Enlargement

/-!
# Segments as logs of bytes

The written part of a segment is a log to which bytes are appended at the end. It does not show in
the log when the memory was enlarged, nor what stood in the memory before a reset.
-/

namespace ScalableVector

namespace Memory

theorem size_overwrite (bytes : Array UInt8) (start : Nat) (new : Bytes) :
    (overwrite bytes start new).size = bytes.size := by
  induction new generalizing bytes start with
  | nil => rfl
  | cons b rest ih => simp [overwrite, ih]

def overlaid (cells : Bytes) (place : Nat) (new : Bytes) : Bytes :=
  cells.take place ++ new ++ cells.drop (place + new.length)

theorem overlaid_nil (cells : Bytes) (place : Nat) : overlaid cells place [] = cells := by
  rw [overlaid, List.append_nil, List.length_nil, Nat.add_zero, List.take_append_drop]

theorem overlaid_cons {cells new : Bytes} {place : Nat} (b : UInt8) (h : place < cells.length) :
    overlaid (cells.set place b) (place + 1) new = overlaid cells place (b :: new) := by
  have hset : (cells.set place b).take (place + 1) = cells.take place ++ [b] := by
    rw [List.take_succ_eq_append_getElem (by rwa [List.length_set]), List.getElem_set_self,
      List.take_set_of_le (Nat.le_refl place)]
  rw [overlaid, overlaid, hset, List.drop_set_of_lt (by omega), List.length_cons,
    Nat.add_right_comm, List.append_assoc _ [b]]
  rfl

theorem toList_overwrite {bytes : Array UInt8} {start : Nat} {new : Bytes}
    (h : start + new.length ≤ bytes.size) :
    (overwrite bytes start new).toList = overlaid bytes.toList start new := by
  induction new generalizing bytes start with
  | nil => rw [overwrite, overlaid_nil]
  | cons b rest ih =>
    rw [List.length_cons] at h
    have hrest := @ih (bytes.setIfInBounds start b) (start + 1)
      (by rw [Array.size_setIfInBounds]; omega)
    rw [overwrite, hrest, Array.toList_setIfInBounds]
    exact overlaid_cons b (by rw [Array.length_toList]; omega)

theorem take_overwrite {bytes : Array UInt8} {start : Nat} {new : Bytes}
    (h : start + new.length ≤ bytes.size) :
    (overwrite bytes start new).toList.take (start + new.length) =
      bytes.toList.take start ++ new := by
  have hfront : (bytes.toList.take start ++ new).length = start + new.length := by
    rw [List.length_append, List.length_take, Array.length_toList]
    omega
  rw [toList_overwrite h, overlaid, ← hfront, List.take_left']
  rfl

end Memory

namespace Segment

/-- The segment holds the log in memory that can be enlarged. -/
structure Holds (s : Segment) (log : Bytes) : Prop where
  mapped : ∀ m ∈ s.memory, m.IsMapping
  size_le : s.size ≤ s.length
  take_code : s.code.toList.take s.size = log

namespace Holds

theorem empty : Segment.empty.Holds [] := by
  refine ⟨?_, Nat.le_refl 0, rfl⟩
  intro m hm
  cases hm

variable {system : System} {s : Segment} {log : Bytes}

theorem length_log (h : s.Holds log) : log.length = s.size := by
  rw [← h.take_code, List.length_take, Array.length_toList]
  exact Nat.min_eq_left h.size_le

theorem append (hsystem : system.Ample) (h : s.Holds log) (new : Bytes) :
    ∃ memory, grown system s.memory (s.size + new.length) = .ok memory ∧
      (Segment.mk (memory.map (·.poke s.size new)) (s.size + new.length)).Holds (log ++ new) := by
  obtain ⟨memory, hgrown, hmapped, hlength, rest, hrest⟩ :=
    grown_of_ample hsystem h.mapped (s.size + new.length)
  refine ⟨memory, hgrown, ?_⟩
  have htake : (Segment.mk memory s.size).code.toList.take s.size = log := by
    change (memory.getD .nil).bytes.toList.take s.size = log
    rw [← hrest, ← h.take_code]
    exact List.take_append_of_le_length h.size_le
  cases memory with
  | none =>
    -- no memory is needed for no bytes
    have hnil : s.size + new.length ≤ 0 := hlength
    have hnew : new = [] := List.eq_nil_of_length_eq_zero (by omega)
    subst hnew
    refine ⟨hmapped, hlength, ?_⟩
    rw [List.append_nil]
    exact htake
  | some m =>
    refine ⟨?_, ?_, ?_⟩
    · intro m' hm'
      cases hm'
      exact hmapped m rfl
    · change _ ≤ (Memory.overwrite m.bytes s.size new).size
      rw [Memory.size_overwrite]
      exact hlength
    · rw [← htake]
      exact Memory.take_overwrite hlength

theorem writeWord (hsystem : system.Ample) (h : s.Holds log) (w : Word) :
    ∃ s', s.writeWord system w = (.ok (), s') ∧ s'.Holds (log ++ w.bytes) := by
  obtain ⟨memory, hgrown, hholds⟩ := h.append hsystem w.bytes
  refine ⟨_, ?_, hholds⟩
  change grown system s.memory (s.size + 4) = .ok memory at hgrown
  simp only [Segment.writeWord, hgrown]
  rfl

theorem openBuffer (hsystem : system.Ample) (h : s.Holds log) :
    ∃ b s', s.openBuffer system = (.ok b, s') ∧ 16 ∣ b.offset ∧
      s'.Holds (log.rightpad (16 * ((log.length + 15) / 16)) 0) := by
  obtain ⟨memory, hgrown, hholds⟩ := h.append hsystem (List.replicate (padding s.size) 0)
  rw [List.length_replicate] at hgrown hholds
  have hlog : log ++ List.replicate (padding s.size) 0 =
      log.rightpad (16 * ((log.length + 15) / 16)) 0 := by
    have hpadding : padding s.size = 16 * ((log.length + 15) / 16) - log.length := by
      rw [h.length_log, padding]
      omega
    rw [List.rightpad, hpadding]
  rw [hlog] at hholds
  refine ⟨⟨s.size + padding s.size⟩, _, ?_, ?_, hholds⟩
  · simp only [Segment.openBuffer, hgrown]
  · change 16 ∣ s.size + padding s.size
    rw [padding]
    omega

theorem reset (h : s.Holds log) {b : Buffer} (hb : b.offset ≤ s.size) :
    (s.reset b).Holds (log.take b.offset) := by
  refine ⟨h.mapped, Nat.le_trans hb h.size_le, ?_⟩
  rw [← h.take_code, List.take_take, Nat.min_eq_left hb]
  rfl

theorem map (hsystem : system.Ample) (h : s.Holds log) (hs : s.memory = none) {length : Nat}
    (hlength : 0 < length) :
    ∃ s', s.map system length = (.ok (), s') ∧ s'.Holds (log ++ List.replicate length 0) := by
  have hempty : s.length = 0 := by
    simp [Segment.length, code, slice, hs, Memory.nil]
  have hlog : log = [] := by
    apply List.eq_nil_of_length_eq_zero
    have := h.size_le
    rw [h.length_log]
    omega
  have hmap : Memory.map system (length : Int) =
      .ok ⟨.mapped, (Vector.replicate length 0).toArray, #[]⟩ := by
    rw [Memory.map, if_neg (by omega), Memory.allocate, if_pos (by omega), Int.toNat_natCast,
      hsystem.map_zero length hlength]
    rfl
  refine ⟨⟨some ⟨.mapped, (Vector.replicate length 0).toArray, #[]⟩, length⟩, ?_, ?_, ?_, ?_⟩
  · simp only [Segment.map, hs, hmap, Int.toNat_natCast]
  · intro m hm
    cases hm
    exact ⟨rfl, rfl⟩
  · simp [Segment.length, code, slice]
  · simp [hlog, code, slice]

/-- A mapping has no spare bytes, so that the written part is all that can be read. -/
theorem bufferBytes (h : s.Holds log) {b : Buffer} (hb : b.offset ≤ s.size) :
    s.bufferBytes b = .ok (log.drop b.offset) := by
  have hcells : s.slice.whole.bytes = s.code := by
    cases hm : s.memory with
    | none => simp [Memory.whole, code, slice, hm, Memory.nil]
    | some m => simp [Memory.whole, code, slice, hm, (h.mapped m hm).2]
  rw [Segment.bufferBytes, Memory.capacity, hcells, if_pos ⟨hb, h.size_le⟩, ← h.take_code,
    Array.toList_extract, List.extract_eq_take_drop, List.drop_take]

theorem bufferLength (h : s.Holds log) {b : Buffer} (hb : b.offset ≤ s.size) :
    s.bufferLength b = (log.drop b.offset).length := by
  rw [Segment.bufferLength, List.length_drop, h.length_log]
  omega

end Holds

/-- A request to a segment. -/
inductive Request
  | map (length : Nat)
  | next
  | write (buffer : Buffer) (word : Word)
  | reset (buffer : Buffer)
  deriving DecidableEq

structure Session where
  segment : Segment
  buffers : List Buffer
  deriving DecidableEq

namespace Session

def fresh : Session := ⟨.empty, []⟩

def replaced (s : Session) : Except Fault Unit × Segment → Except Fault Session
  | (.ok (), segment) => .ok { s with segment }
  | (.error f, _) => .error f

def perform (system : System) (s : Session) : Request → Except Fault Session
  | .map length => s.replaced (s.segment.map system length)
  | .next =>
    match s.segment.openBuffer system with
    | (.ok b, segment) => .ok ⟨segment, s.buffers ++ [b]⟩
    | (.error f, _) => .error f
  | .write _ w => s.replaced (s.segment.writeWord system w)
  | .reset b => .ok { s with segment := s.segment.reset b }

def run (system : System) (s : Session) (requests : List Request) : Except Fault Session :=
  requests.foldlM (perform system) s

/-- The request may be made. Memory is mapped only where there is none; words go through buffers
that were handed out; and a reset is to a buffer that starts within the written part. -/
def Allows (s : Session) : Request → Prop
  | .map length => s.segment.memory = none ∧ 0 < length
  | .next => True
  | .write b _ => b ∈ s.buffers
  | .reset b => b ∈ s.buffers ∧ b.offset ≤ s.segment.size

instance (s : Session) : (r : Request) → Decidable (s.Allows r)
  | .map length => inferInstanceAs (Decidable (s.segment.memory = none ∧ 0 < length))
  | .next => inferInstanceAs (Decidable True)
  | .write b _ => inferInstanceAs (Decidable (b ∈ s.buffers))
  | .reset b => inferInstanceAs (Decidable (b ∈ s.buffers ∧ b.offset ≤ s.segment.size))

def AllowsAll (system : System) (s : Session) : List Request → Prop
  | [] => True
  | r :: rs =>
    s.Allows r ∧
      match s.perform system r with
      | .ok s' => s'.AllowsAll system rs
      | .error _ => True

instance decidableAllowsAll (system : System) (s : Session) :
    (rs : List Request) → Decidable (s.AllowsAll system rs)
  | [] => inferInstanceAs (Decidable True)
  | r :: rs =>
    have : Decidable (match s.perform system r with
        | .ok s' => s'.AllowsAll system rs
        | .error _ => True) :=
      match s.perform system r with
      | .ok s' => decidableAllowsAll system s' rs
      | .error _ => inferInstanceAs (Decidable True)
    inferInstanceAs (Decidable (s.Allows r ∧ _))

end Session

/-- What a request does to the log of a segment. -/
def Request.record (log : Bytes) : Request → Bytes
  | map length => log ++ List.replicate length 0
  | next => log.rightpad (16 * ((log.length + 15) / 16)) 0
  | write _ w => log ++ w.bytes
  | reset b => log.take b.offset

namespace Session

structure Keeps (s : Session) (log : Bytes) : Prop where
  holds : s.segment.Holds log
  aligned : ∀ b ∈ s.buffers, 16 ∣ b.offset

variable {system : System} {s : Session} {log : Bytes}

theorem Keeps.perform (hsystem : system.Ample) (h : s.Keeps log) {r : Request}
    (hr : s.Allows r) : ∃ s', s.perform system r = .ok s' ∧ s'.Keeps (r.record log) := by
  obtain ⟨holds, aligned⟩ := h
  cases r with
  | map length =>
    obtain ⟨segment, hmap, hholds⟩ := holds.map hsystem hr.1 hr.2
    refine ⟨{ s with segment }, ?_, hholds, aligned⟩
    rw [Session.perform, hmap, replaced]
  | next =>
    obtain ⟨b, segment, hopen, hb, hholds⟩ := holds.openBuffer hsystem
    refine ⟨⟨segment, s.buffers ++ [b]⟩, ?_, hholds, ?_⟩
    · rw [Session.perform, hopen]
    · intro b' hb'
      rcases List.mem_append.mp hb' with hold | hnew
      · exact aligned b' hold
      · rw [List.mem_singleton.mp hnew]
        exact hb
  | write b w =>
    obtain ⟨segment, hwrite, hholds⟩ := holds.writeWord hsystem w
    refine ⟨{ s with segment }, ?_, hholds, aligned⟩
    rw [Session.perform, hwrite, replaced]
  | reset b => exact ⟨_, rfl, holds.reset hr.2, aligned⟩

theorem Keeps.run (hsystem : system.Ample) (h : s.Keeps log) {requests : List Request}
    (hrequests : s.AllowsAll system requests) :
    ∃ s', s.run system requests = .ok s' ∧ s'.Keeps (requests.foldl Request.record log) := by
  induction requests generalizing s log with
  | nil => exact ⟨s, rfl, h⟩
  | cons r rs ih =>
    obtain ⟨hr, hrs⟩ := hrequests
    obtain ⟨s', hperform, hkeeps⟩ := h.perform hsystem hr
    rw [hperform] at hrs
    obtain ⟨last, hlast, hlog⟩ := ih hkeeps hrs
    refine ⟨last, ?_, hlog⟩
    rw [Session.run, List.foldlM_cons, hperform]
    exact hlast

/-- A segment is a log of bytes. Whatever requests are made in their turn, starting without memory
on a system that has memory to give, none of them has a fault, the written part fits into the memory
and equals the log, and all buffers start at multiples of 16. A buffer that starts within the
written part shows the log from there on. -/
theorem run_refines_log {system : System} (hsystem : system.Ample) (requests : List Request)
    (h : fresh.AllowsAll system requests) :
    let log := requests.foldl Request.record []
    ∃ s, fresh.run system requests = .ok s ∧
      s.segment.size ≤ s.segment.length ∧
      (∀ b ∈ s.buffers, 16 ∣ b.offset) ∧
      s.segment.code.toList.take s.segment.size = log ∧
      ∀ b : Buffer, b.offset ≤ s.segment.size →
        s.segment.bufferBytes b = .ok (log.drop b.offset) ∧
          s.segment.bufferLength b = (log.drop b.offset).length := by
  intro log
  have hfresh : fresh.Keeps [] := by
    refine ⟨.empty, ?_⟩
    intro b hb
    cases hb
  obtain ⟨s, hrun, holds, aligned⟩ := hfresh.run hsystem h
  refine ⟨s, hrun, holds.size_le, aligned, holds.take_code, ?_⟩
  intro b hb
  exact ⟨holds.bufferBytes hb, holds.bufferLength hb⟩

/-- Memory of 20 bytes is enlarged for the first buffer and again for its words. The last request
overwrites what the reset left behind. -/
private def resetRequests : List Request :=
  [.map 20, .next, .write ⟨32⟩ 0x04a20020, .write ⟨32⟩ 0xffffffff, .write ⟨32⟩ 0xffffffff, .next,
    .write ⟨32⟩ 0x25904000, .reset ⟨32⟩, .write ⟨48⟩ 0x252c9000, .next]

theorem run_resetRequests :
    fresh.AllowsAll .unlimited resetRequests ∧
      ∃ s, fresh.run .unlimited resetRequests = .ok s ∧
        s.segment.size = 48 ∧ s.segment.length = 80 ∧
        s.segment.bufferBytes ⟨32⟩ = .ok ([0x00, 0x90, 0x2c, 0x25] ++ List.replicate 12 0) := by
  have hallowed : fresh.AllowsAll .unlimited resetRequests := by decide +kernel
  obtain ⟨s, hrun, -, -, -, hbuffer⟩ := 
    run_refines_log System.unlimited_ample resetRequests hallowed
  have hlast : (fresh.run .unlimited resetRequests).toOption.map
      (fun s => (s.segment.size, s.segment.length)) = some (48, 80) := by decide +kernel
  rw [hrun] at hlast
  obtain ⟨hsize, hlength⟩ := Prod.mk.inj (Option.some.inj hlast)
  refine ⟨hallowed, s, hrun, hsize, hlength, ?_⟩
  rw [(hbuffer ⟨32⟩ (by rw [hsize]; decide)).1]
  exact congrArg Except.ok (by decide +kernel)

end Session

end Segment

end ScalableVector
