import ScalableVector.Proofs.FailedGrowth
import ScalableVector.Proofs.Journal

/-!
# Releasing the memory

A segment may be used in any order, by its owner and through the buffers it handed out, and further
after a fault; the system may answer differently each time. Whatever was done, a release that fails
changes nothing, and one that succeeds leaves no memory. Two things go wrong. A slice without
capacity cannot be released, and to try it ends the program. And a segment without memory can count
bytes, which a further release does not forget: a buffer that outlives the memory can be reset, and
the first word can be counted although its memory was refused.
-/

namespace ScalableVector

/-- What is not a live mapping cannot be released. -/
def System.ReleasesMappingsOnly (system : System) : Prop :=
  ∀ m : Memory, ¬m.IsMapping → ∃ why, system.unmap m = .error why

namespace Segment

/-- A use of a segment. A buffer is told by its place among those that were handed out. -/
inductive Use
  | map (length : Int)
  | next
  | write (buffer : Nat) (word : Word)
  | reset (buffer : Nat)
  | unmap
  deriving DecidableEq

namespace Session

/-- The session after a use, with a fault or without. Nothing is done through a buffer that was not
handed out. -/
def use (system : System) (s : Session) : Use → Session
  | .map length => { s with segment := (s.segment.map system length).2 }
  | .next =>
    match s.segment.openBuffer system with
    | (.ok b, segment) => ⟨segment, s.buffers ++ [b]⟩
    | (.error _, segment) => { s with segment }
  | .write k w =>
    if k < s.buffers.length then { s with segment := (s.segment.writeWord system w).2 } else s
  | .reset k =>
    match s.buffers[k]? with
    | some b => { s with segment := s.segment.reset b }
    | none => s
  | .unmap => { s with segment := (s.segment.unmap system).2 }

/-- The session after uses in order, each with the system as it is at the time. -/
def history (s : Session) (uses : List (System × Use)) : Session :=
  uses.foldl (fun s u => s.use u.1 u.2) s

def start (slice : Option Memory) : Session := ⟨ofSlice slice, []⟩

/-- The use counts a word for which the system refuses the first memory. -/
def LosesWord (s : Session) (system : System) (u : Use) : Prop :=
  s.segment.memory = none ∧ ∃ k w, u = .write k w ∧ k < s.buffers.length ∧
    ∃ f after, s.segment.writeWord system w = (.error f, after)

def LostWord (s : Session) (uses : List (System × Use)) : Prop :=
  ∃ front system u back, uses = front ++ (system, u) :: back ∧ (s.history front).LosesWord system u

end Session

def Use.StaleReset (uses : List (System × Use)) : Prop :=
  ∃ front system k back, uses = front ++ (system, .reset k) :: back ∧
    .unmap ∈ front.map Prod.snd

/-- The memory has capacity, or it has as little as the slice. -/
def Owned (slice memory : Option Memory) : Prop :=
  ∀ m ∈ memory, 0 < m.capacity ∨ slice.map Memory.capacity = some m.capacity

theorem owned_ofSlice (slice : Option Memory) : Owned slice (ofSlice slice).memory := by
  intro m hm
  right
  exact congrArg (Option.map Memory.capacity) (Option.mem_def.mp hm)

theorem code_of_none {s : Segment} (h : s.memory = none) : s.code = #[] := by
  rw [code, slice, h]
  rfl

theorem eq_empty {s : Segment} (hmemory : s.memory = none) (hsize : s.size = 0) : s = empty := by
  cases s
  cases hmemory
  cases hsize
  rfl

/-! ## What an operation does to the memory -/

section Memory

variable {system : System} {slice : Option Memory} {s : Segment}

theorem capacity_eq (m : Memory) : m.capacity = m.bytes.size + m.spare.size := Array.size_append

theorem Owned.grown {memory memory' : Option Memory} {wanted : Nat} (h : Owned slice memory)
    (hgrown : Segment.grown system memory wanted = .ok memory') : Owned slice memory' := by
  rcases grown_cases system memory wanted with
    ⟨why, hrefused⟩ | ⟨-, hsame⟩ | ⟨hlt, m, hnew, -, hsize⟩
  · rw [grown_of_refused hrefused] at hgrown
    cases hgrown
  · rw [hsame] at hgrown
    cases hgrown
    exact h
  · rw [hnew] at hgrown
    cases hgrown
    intro m' hm'
    cases hm'
    have hwanted := wanted_le_grownLength (memory.getD .nil).bytes.size wanted
    rw [capacity_eq]
    omega

theorem Owned.poke {memory : Option Memory} (h : Owned slice memory) (start : Nat) (new : Bytes) :
    Owned slice (memory.map (·.poke start new)) := by
  intro m hm
  obtain ⟨old, hold, rfl⟩ := Option.map_eq_some_iff.mp hm
  have hcapacity : (old.poke start new).capacity = old.capacity := by
    rw [capacity_eq, capacity_eq]
    exact congrArg (· + old.spare.size) (Memory.size_overwrite old.bytes start new)
  rw [hcapacity]
  exact h old hold

/-- Only memory from a slice without capacity has none. -/
theorem Owned.exists_slice (h : Owned slice s.memory) (hzero : ∃ m ∈ s.memory, m.capacity = 0) :
    ∃ m ∈ slice, m.capacity = 0 := by
  obtain ⟨m, hm, hcapacity⟩ := hzero
  rcases h m hm with hpos | hslice
  · omega
  · obtain ⟨m', hm', hsame⟩ := Option.map_eq_some_iff.mp hslice
    exact ⟨m', hm', hsame.trans hcapacity⟩

theorem Owned.map (h : Owned slice s.memory) (length : Int) :
    Owned slice (s.map system length).2.memory := by
  rw [Segment.map]
  cases hm : s.memory with
  | some m =>
    rw [hm] at h
    simpa [hm] using h
  | none =>
    rw [Memory.map, Memory.allocate]
    intro m hmem
    by_cases hzero : length = 0
    · simp [hzero, hm] at hmem
    · by_cases hpos : 0 < length
      · simp only [hzero, hpos, if_true, if_false] at hmem
        cases hanswer : system.map length.toNat with
        | error why =>
          rw [hanswer] at hmem
          simp [Memory.ofAnswer, hm] at hmem
        | ok bytes =>
          rw [hanswer] at hmem
          cases hmem
          left
          rw [capacity_eq, bytes.size_toArray]
          omega
      · simp [hzero, hpos, hm] at hmem

theorem Owned.openBuffer (h : Owned slice s.memory) :
    Owned slice (s.openBuffer system).2.memory := by
  cases hgrown : Segment.grown system s.memory (s.size + padding s.size) with
  | error f =>
    simp only [Segment.openBuffer, hgrown]
    exact h
  | ok memory =>
    simp only [Segment.openBuffer, hgrown]
    exact (h.grown hgrown).poke _ _

theorem Owned.writeWord (h : Owned slice s.memory) (w : Word) :
    Owned slice (s.writeWord system w).2.memory := by
  cases hgrown : Segment.grown system s.memory (s.size + 4) with
  | error f =>
    simp only [Segment.writeWord, hgrown]
    exact h
  | ok memory =>
    simp only [Segment.writeWord, hgrown]
    exact (h.grown hgrown).poke _ _

theorem unmap_cases (system : System) (s : Segment) :
    (s.memory = none ∧ s.unmap system = (.ok (), s)) ∨
      ∃ m ∈ s.memory,
        (m.capacity = 0 ∧ s.unmap system = (.error (.memory (.zeroLength .unmap)), s)) ∨
        0 < m.capacity ∧
          ((system.unmap m.whole = .ok () ∧ s.unmap system = (.ok (), empty)) ∨
            ∃ why, system.unmap m.whole = .error why ∧
              s.unmap system = (.error (.memory (.refused why)), s)) := by
  cases hm : s.memory with
  | none => exact .inl ⟨rfl, by simp only [unmap, hm]⟩
  | some m =>
    refine .inr ⟨m, rfl, ?_⟩
    by_cases hzero : m.whole.bytes.size = 0
    · refine .inl ⟨hzero, ?_⟩
      simp only [unmap, hm, Memory.unmap, if_pos hzero]
    · refine .inr ⟨Nat.pos_of_ne_zero hzero, ?_⟩
      cases hanswer : system.unmap m.whole with
      | ok => exact .inl ⟨rfl, by simp only [unmap, hm, Memory.unmap, if_neg hzero, hanswer]⟩
      | error why =>
        refine .inr ⟨why, rfl, ?_⟩
        simp only [unmap, hm, Memory.unmap, if_neg hzero, hanswer]

theorem unmap_of_error {f : Fault} {s' : Segment} (h : s.unmap system = (.error f, s')) :
    s' = s := by
  rcases unmap_cases system s with
    ⟨-, hunmap⟩ | ⟨m, -, ⟨-, hunmap⟩ | ⟨-, ⟨-, hunmap⟩ | ⟨why, -, hunmap⟩⟩⟩
  all_goals
    rw [hunmap] at h
    cases h
  · rfl
  · rfl

theorem unmap_of_ok {s' : Segment} (h : s.unmap system = (.ok (), s')) :
    s.memory = none ∧ s' = s ∨ s.memory ≠ none ∧ s' = empty := by
  rcases unmap_cases system s with
    ⟨hmemory, hunmap⟩ | ⟨m, hm, ⟨-, hunmap⟩ | ⟨-, ⟨-, hunmap⟩ | ⟨why, -, hunmap⟩⟩⟩
  all_goals
    rw [hunmap] at h
    cases h
  · exact .inl ⟨hmemory, rfl⟩
  · exact .inr ⟨by simp [Option.mem_def.mp hm], rfl⟩

theorem unmap_isFatal_iff (system : System) (s : Segment) :
    (∃ f s', s.unmap system = (.error f, s') ∧ f.isFatal = true) ↔
      ∃ m ∈ s.memory, m.capacity = 0 := by
  rcases unmap_cases system s with
    ⟨hmemory, hunmap⟩ | ⟨m, hm, ⟨hzero, hunmap⟩ | ⟨hpos, hrest⟩⟩
  · rw [hunmap, hmemory]
    exact iff_of_false nofun nofun
  · rw [hunmap]
    exact iff_of_true ⟨_, _, rfl, rfl⟩ ⟨m, hm, hzero⟩
  · apply iff_of_false
    · rintro ⟨f, s', hfault, hfatal⟩
      rcases hrest with ⟨-, hunmap⟩ | ⟨why, -, hunmap⟩
      all_goals
        rw [hunmap] at hfault
        cases hfault
      cases hfatal
    · rintro ⟨m', hm', hzero⟩
      cases Option.mem_unique hm hm'
      omega

theorem unmap_of_not_mapped (hsystem : system.ReleasesMappingsOnly) {m : Memory}
    (hm : m ∈ s.memory) (horigin : m.origin ≠ .mapped) : ∃ f, s.unmap system = (.error f, s) := by
  rcases unmap_cases system s with ⟨hmemory, -⟩ | ⟨m', hm', ⟨-, hunmap⟩ | ⟨-, hrest⟩⟩
  · rw [hmemory] at hm
    cases hm
  · exact ⟨_, hunmap⟩
  · cases Option.mem_unique hm hm'
    rcases hrest with ⟨hreleased, -⟩ | ⟨why, -, hunmap⟩
    · obtain ⟨why, hrefused⟩ := hsystem m.whole fun hmapping => horigin hmapping.1
      cases hrefused.symm.trans hreleased
    · exact ⟨_, hunmap⟩

theorem Owned.unmap (h : Owned slice s.memory) : Owned slice (s.unmap system).2.memory := by
  cases hunmap : s.unmap system with
  | mk result s' =>
    cases result with
    | error f =>
      rw [unmap_of_error hunmap]
      exact h
    | ok =>
      rcases unmap_of_ok hunmap with ⟨-, rfl⟩ | ⟨-, rfl⟩
      · exact h
      · exact nofun

/-- Without memory after a word was written there was none before, and it was refused. -/
theorem writeWord_of_none {w : Word} (h : (s.writeWord system w).2.memory = none) :
    s.memory = none ∧ ∃ f, s.writeWord system w = (.error f, ⟨none, s.size + 4⟩) := by
  rcases grown_cases system s.memory (s.size + 4) with
    ⟨why, hrefused⟩ | ⟨hlength, hsame⟩ | ⟨-, m, hnew, -⟩
  · rw [writeWord_of_refused hrefused] at h ⊢
    have hmemory : s.memory = none := h
    exact ⟨hmemory, _, by rw [hmemory]⟩
  · simp only [Segment.writeWord, hsame, Option.map_eq_none_iff] at h
    simp [h, Memory.nil] at hlength
  · simp [Segment.writeWord, hnew] at h

theorem openBuffer_of_none (h : (s.openBuffer system).2.memory = none) :
    s.memory = none ∧
      (s.size = 0 ∧ s.openBuffer system = (.ok ⟨0⟩, s) ∨
        ∃ f, s.openBuffer system = (.error f, s)) := by
  rcases grown_cases system s.memory (s.size + padding s.size) with
    ⟨why, hrefused⟩ | ⟨hlength, hsame⟩ | ⟨-, m, hnew, -⟩
  · rw [openBuffer_of_refused hrefused] at h ⊢
    exact ⟨h, .inr ⟨_, rfl⟩⟩
  · simp only [Segment.openBuffer, hsame, Option.map_eq_none_iff] at h
    rw [h] at hlength
    have hsize : s.size = 0 := by
      have : s.size + padding s.size ≤ 0 := hlength
      omega
    obtain ⟨memory, size⟩ := s
    cases h
    cases hsize
    exact ⟨rfl, .inl ⟨rfl, rfl⟩⟩
  · simp [Segment.openBuffer, hnew] at h

theorem map_of_none {length : Int} (h : (s.map system length).2.memory = none) :
    (s.map system length).2 = s := by
  rw [Segment.map] at h ⊢
  cases hm : s.memory with
  | some m => rfl
  | none =>
    rw [hm] at h
    cases hmap : Memory.map system length with
    | error f => rfl
    | ok m =>
      simp only [hmap] at h
      cases h

end Memory

/-! ## What a history does -/

namespace Session

variable {system : System} {s : Session}

theorem history_cons (s : Session) (system : System) (u : Use) (uses : List (System × Use)) :
    s.history ((system, u) :: uses) = (s.use system u).history uses := rfl

theorem segment_use_next (system : System) (s : Session) :
    (s.use system .next).segment = (s.segment.openBuffer system).2 := by
  rw [use]
  split
  · rename_i hopen
    rw [hopen]
  · rename_i hopen
    rw [hopen]

theorem owned_use {slice : Option Memory} (h : Owned slice s.segment.memory) (system : System)
    (u : Use) : Owned slice (s.use system u).segment.memory := by
  cases u with
  | map length => exact h.map length
  | next =>
    rw [segment_use_next]
    exact h.openBuffer
  | write k w =>
    rw [use]
    split
    · exact h.writeWord w
    · exact h
  | reset k =>
    rw [use]
    split <;> exact h
  | unmap => exact h.unmap

theorem owned_history {slice : Option Memory} (h : Owned slice s.segment.memory)
    (uses : List (System × Use)) : Owned slice (s.history uses).segment.memory := by
  induction uses generalizing s with
  | nil => exact h
  | cons u uses ih => exact ih (owned_use h u.1 u.2)

def Settled (s : Session) : Prop := s.segment.memory = none → s.segment.size = 0

def Untouched (s : Session) : Prop :=
  s.segment.memory = none → s.segment.size = 0 ∧ ∀ b ∈ s.buffers, b.offset = 0

theorem untouched_start (slice : Option Memory) : (start slice).Untouched := by
  intro h
  cases slice with
  | none => exact ⟨rfl, nofun⟩
  | some bytes => cases h

/-- What a use has done if there is no memory after it and no word was lost. -/
theorem use_of_none {u : Use} (hkept : ¬s.LosesWord system u)
    (h : (s.use system u).segment.memory = none) :
    (s.segment.memory = none ∧ s.use system u = s) ∨
      (s.segment.memory = none ∧ s.segment.size = 0 ∧
        s.use system u = ⟨s.segment, s.buffers ++ [⟨0⟩]⟩) ∨
      (s.segment.memory = none ∧ ∃ k, u = .reset k ∧
        ∃ b ∈ s.buffers, s.use system u = ⟨s.segment.reset b, s.buffers⟩) ∨
      (u = .unmap ∧ s.use system u = ⟨empty, s.buffers⟩) := by
  cases u with
  | map length =>
    have hsame := map_of_none h
    simp only [use, hsame] at h ⊢
    exact .inl ⟨h, trivial⟩
  | next =>
    rw [segment_use_next] at h
    obtain ⟨hmemory, ⟨hsize, hbuffer⟩ | ⟨f, hrefused⟩⟩ := openBuffer_of_none h
    · exact .inr (.inl ⟨hmemory, hsize, by rw [use, hbuffer]⟩)
    · exact .inl ⟨hmemory, by rw [use, hrefused]⟩
  | write k w =>
    by_cases hk : k < s.buffers.length
    · simp only [use, if_pos hk] at h
      obtain ⟨hmemory, f, hfails⟩ := writeWord_of_none h
      exact absurd ⟨hmemory, k, w, rfl, hk, f, _, hfails⟩ hkept
    · simp only [use, if_neg hk] at h ⊢
      exact .inl ⟨h, trivial⟩
  | reset k =>
    cases hb : s.buffers[k]? with
    | none =>
      simp only [use, hb] at h ⊢
      exact .inl ⟨h, trivial⟩
    | some b =>
      simp only [use, hb] at h ⊢
      exact .inr (.inr (.inl ⟨h, k, rfl, b, List.mem_of_getElem? hb, rfl⟩))
  | unmap =>
    rw [use] at h ⊢
    cases hunmap : s.segment.unmap system with
    | mk result s' =>
      rw [hunmap] at h
      cases result with
      | error f =>
        cases unmap_of_error hunmap
        exact .inl ⟨h, rfl⟩
      | ok =>
        rcases unmap_of_ok hunmap with ⟨hmemory, rfl⟩ | ⟨-, rfl⟩
        · exact .inl ⟨hmemory, rfl⟩
        · exact .inr (.inr (.inr ⟨rfl, rfl⟩))

theorem Untouched.use (h : s.Untouched) {u : Use} (hkept : ¬s.LosesWord system u)
    (hu : u ≠ .unmap) : (s.use system u).Untouched := by
  intro hnone
  rcases use_of_none hkept hnone with
    ⟨hmemory, hs⟩ | ⟨hmemory, hsize, hs⟩ | ⟨hmemory, k, -, b, hb, hs⟩ | ⟨hunmap, -⟩
  · rw [hs]
    exact h hmemory
  · rw [hs]
    refine ⟨hsize, ?_⟩
    intro b hb
    rcases List.mem_append.mp hb with hold | hnew
    · exact (h hmemory).2 b hold
    · rw [List.mem_singleton.mp hnew]
  · rw [hs]
    exact ⟨(h hmemory).2 b hb, (h hmemory).2⟩
  · exact absurd hunmap hu

theorem Settled.use (h : s.Settled) {u : Use} (hkept : ¬s.LosesWord system u)
    (hu : ∀ k, u ≠ .reset k) : (s.use system u).Settled := by
  intro hnone
  rcases use_of_none hkept hnone with
    ⟨hmemory, hs⟩ | ⟨-, hsize, hs⟩ | ⟨-, k, hreset, -⟩ | ⟨-, hs⟩
  · rw [hs]
    exact h hmemory
  · rw [hs]
    exact hsize
  · exact absurd hreset (hu k)
  · rw [hs]
    rfl

theorem not_losesWord_of_cons {u : Use} {uses : List (System × Use)}
    (h : ¬s.LostWord ((system, u) :: uses)) :
    ¬s.LosesWord system u ∧ ¬(s.use system u).LostWord uses := by
  constructor
  · intro hloses
    exact h ⟨[], system, u, uses, rfl, hloses⟩
  · rintro ⟨front, later, v, back, rfl, hloses⟩
    exact h ⟨(system, u) :: front, later, v, back, rfl, hloses⟩

theorem Settled.history (h : s.Settled) {uses : List (System × Use)} (hkept : ¬s.LostWord uses)
    (hno : ∀ k, .reset k ∉ uses.map Prod.snd) : (s.history uses).Settled := by
  induction uses generalizing s with
  | nil => exact h
  | cons first uses ih =>
    obtain ⟨hfirst, hrest⟩ := not_losesWord_of_cons hkept
    rw [List.map_cons] at hno
    rw [history_cons]
    apply ih _ hrest
    · intro k hk
      exact hno k (List.mem_cons_of_mem _ hk)
    · apply h.use hfirst
      intro k hk
      exact hno k (hk ▸ List.mem_cons_self)

-- Up to the first release the buffers that are handed out without memory start at 0, and after it
-- there are no resets, so that neither part counts what there is no memory for.
theorem Untouched.history (h : s.Untouched) {uses : List (System × Use)}
    (hkept : ¬s.LostWord uses) (hno : ¬Use.StaleReset uses) : (s.history uses).Settled := by
  induction uses generalizing s with
  | nil => exact fun hnone => (h hnone).1
  | cons first uses ih =>
    obtain ⟨system, u⟩ := first
    by_cases hu : u = .unmap
    · subst hu
      have hsettled : s.Settled := fun hnone => (h hnone).1
      apply hsettled.history hkept
      intro k hk
      rcases List.mem_cons.mp hk with hunmap | hlater
      · cases hunmap
      · obtain ⟨⟨later, u⟩, hmem, rfl⟩ := List.mem_map.mp hlater
        obtain ⟨front, back, rfl⟩ := List.append_of_mem hmem
        exact hno ⟨(system, .unmap) :: front, later, k, back, rfl, List.mem_cons_self⟩
    · obtain ⟨hfirst, hrest⟩ := not_losesWord_of_cons hkept
      rw [history_cons]
      apply ih (h.use hfirst hu) hrest
      rintro ⟨front, later, k, back, rfl, hunmap⟩
      exact hno ⟨(system, u) :: front, later, k, back, rfl, List.mem_cons_of_mem _ hunmap⟩

/-- What a release does to a segment over any slice, after any uses, whatever the system answered to
them and answers now. It ends the program if and only if there is memory without capacity, and then
the slice had none. With a fault it changes nothing, and memory that is not a live mapping gives a
fault. Without a fault it leaves no memory, and a further release succeeds and changes nothing. What
it leaves is the empty segment if there was memory, and the same segment if there was none; which is
the empty one, too, unless a buffer was reset after an earlier release or a word was counted for
which the system refused the first memory. -/
theorem release_in_history (slice : Option Memory) (uses : List (System × Use))
    (system : System) :
    let s := ((start slice).history uses).segment
    ((∃ f s', s.unmap system = (.error f, s') ∧ f.isFatal = true) ↔
        ∃ m ∈ s.memory, m.capacity = 0) ∧
    ((∃ m ∈ s.memory, m.capacity = 0) → ∃ m ∈ slice, m.capacity = 0) ∧
    (∀ f s', s.unmap system = (.error f, s') → s' = s) ∧
    (system.ReleasesMappingsOnly → ∀ m ∈ s.memory, m.origin ≠ .mapped →
      ∃ f, s.unmap system = (.error f, s)) ∧
    ∀ s', s.unmap system = (.ok (), s') →
      s'.memory = none ∧ s'.length = 0 ∧ s'.code = #[] ∧
        (∀ later, s'.unmap later = (.ok (), s')) ∧
        (s.memory ≠ none → s' = empty) ∧ (s.memory = none → s' = s) ∧
        (¬Use.StaleReset uses → ¬(start slice).LostWord uses → s' = empty) := by
  intro s
  have howned : Owned slice s.memory := owned_history (owned_ofSlice slice) uses
  refine ⟨unmap_isFatal_iff system s, howned.exists_slice, fun f s' => unmap_of_error,
    fun hsystem m => unmap_of_not_mapped hsystem, ?_⟩
  intro s' hunmap
  rcases unmap_of_ok hunmap with ⟨hmemory, rfl⟩ | ⟨hmemory, rfl⟩
  · refine ⟨hmemory, ?_, code_of_none hmemory, fun later => ?_, absurd hmemory, fun _ => rfl, ?_⟩
    · rw [length, code_of_none hmemory]
      rfl
    · simp only [unmap, hmemory]
    · intro hno hkept
      have hsize : s.size = 0 := (untouched_start slice).history hkept hno hmemory
      exact eq_empty hmemory hsize
  · exact ⟨rfl, rfl, rfl, fun _ => rfl, fun _ => rfl, fun hnone => absurd hnone hmemory,
      fun _ _ => rfl⟩

/-- A mapped segment after a buffer, a release and another mapping: its release leaves the empty
segment. -/
theorem release_in_history_mapped :
    let uses := [Use.map 16, .next, .unmap, .map 32].map (System.unlimited, ·)
    let s := ((start none).history uses).segment
    s.length = 32 ∧ s.unmap .unlimited = (.ok (), empty) ∧ empty.length = 0 ∧
      empty.unmap .unlimited = (.ok (), empty) := by
  intro uses s
  have hrelease : s.unmap .unlimited = (.ok (), empty) := rfl
  obtain ⟨-, -, -, -, hok⟩ := release_in_history none uses .unlimited
  obtain ⟨-, hlength, -, hagain, -⟩ := hok _ hrelease
  exact ⟨by decide, hrelease, hlength, hagain .unlimited⟩

private def withoutMemory : System :=
  { System.unlimited with map := fun _ => .error .unavailable }

/-- A release over a slice without capacity ends the program. And a segment without memory counts
bytes that a release, though it succeeds, does not forget: after a buffer was reset that had
outlived the memory, and after the first word was refused its memory. -/
theorem release_not_clearing :
    let bare := (start (some .nil)).segment
    bare.unmap .unlimited = (.error (.memory (.zeroLength .unmap)), bare) ∧
      (Fault.memory (.zeroLength .unmap)).isFatal = true ∧
      (∃ s', ((start none).history ([Use.map 16, .next, .unmap, .reset 0].map
          (System.unlimited, ·))).segment.unmap .unlimited = (.ok (), s') ∧
        s'.memory = none ∧ s'.size = 16) ∧
      ∃ s', ((start none).history ([Use.next, .write 0 1].map
          (withoutMemory, ·))).segment.unmap .unlimited = (.ok (), s') ∧
        s'.memory = none ∧ s'.size = 4 := by
  have hlost : empty.writeWord withoutMemory 1 =
      (.error (.growth (.refused .unavailable)), ⟨none, 4⟩) :=
    writeWord_of_refused ⟨by decide, fun _ => rfl, fun hpos => absurd rfl hpos⟩ 1
  have hhistory : ((start none).history ([Use.next, .write 0 1].map (withoutMemory, ·))).segment =
      (empty.writeWord withoutMemory 1).2 := rfl
  refine ⟨rfl, rfl, ⟨_, rfl, rfl, rfl⟩, ?_⟩
  rw [hhistory, hlost]
  exact ⟨_, rfl, rfl, rfl⟩

end Session

end Segment

end ScalableVector
