import ScalableVector.Segment.Basic

/-!
# Enlarged memory

Memory that is too short is doubled until it suffices, and the system is asked for the length that
this gives. It may refuse. A system that has memory to give grants it for mappings, and their bytes
stay in front.
-/

namespace ScalableVector

namespace System

/-- Memory is always available: new memory is zero, and a mapping that is enlarged keeps its
bytes. -/
structure Ample (system : System) : Prop where
  map_zero : ∀ length, 0 < length → system.map length = .ok (.replicate length 0)
  remap_keeps : ∀ (m : Memory) (length : Nat), m.IsMapping → m.bytes.size ≤ length →
    ∃ bytes, system.remap m length = .ok bytes ∧ m.bytes.toList <+: bytes.toList

/-- What is not a live mapping cannot be enlarged. -/
def EnlargesMappingsOnly (system : System) : Prop :=
  ∀ (m : Memory) (length : Nat), ¬m.IsMapping → ∃ why, system.remap m length = .error why

theorem unlimited_ample : unlimited.Ample := by
  refine ⟨fun _ _ => rfl, ?_⟩
  intro m length hm hle
  refine ⟨_, if_pos hm, ?_⟩
  rw [List.prefix_iff_getElem?]
  intro k hk
  rw [Array.length_toList] at hk
  have hlength : k < length := by omega
  simp [hk, hlength]

theorem unlimited_enlargesMappingsOnly : unlimited.EnlargesMappingsOnly :=
  fun _ _ hm => ⟨.invalid, if_neg hm⟩

end System

namespace Segment

theorem le_doubled (length wanted : Nat) : length ≤ doubled length wanted := by
  fun_induction doubled length wanted with
  | case1 length _ ih => omega
  | case2 => exact Nat.le_refl _

theorem wanted_le_doubled {length : Nat} (wanted : Nat) (h : 0 < length) :
    wanted ≤ doubled length wanted := by
  fun_induction doubled length wanted with
  | case1 length _ ih => exact ih (by omega)
  | case2 length hstop => omega

theorem le_grownLength (length wanted : Nat) : length ≤ grownLength length wanted := by
  rw [grownLength]
  split
  · omega
  · exact le_doubled length wanted

theorem wanted_le_grownLength (length wanted : Nat) : wanted ≤ grownLength length wanted := by
  apply wanted_le_doubled
  split <;> omega

/-- The system refuses what memory of the wanted length takes: a new mapping if there are no bytes
yet, and otherwise a longer one. -/
structure Refused (system : System) (memory : Option Memory) (wanted : Nat) (why : Refusal) :
    Prop where
  short : (memory.getD .nil).bytes.size < wanted
  map : (memory.getD .nil).bytes.size = 0 → system.map (grownLength 0 wanted) = .error why
  remap : (memory.getD .nil).bytes.size ≠ 0 →
    system.remap (memory.getD .nil) (grownLength (memory.getD .nil).bytes.size wanted) = .error why

variable {system : System} {memory : Option Memory} {wanted : Nat}

theorem remap_grownLength {m : Memory} (h : m.bytes.size < wanted) :
    m.remap system (grownLength m.bytes.size wanted) =
      if m.bytes.size = 0 then Memory.ofAnswer (system.map (grownLength 0 wanted))
      else Memory.ofAnswer (system.remap m (grownLength m.bytes.size wanted)) := by
  have hle := le_grownLength m.bytes.size wanted
  have hwanted := wanted_le_grownLength m.bytes.size wanted
  rw [Memory.remap, if_neg (by omega)]
  by_cases hzero : m.bytes.size = 0
  · rw [if_pos hzero, if_pos hzero, Memory.allocate, if_pos (by omega), Int.toNat_natCast, hzero]
  · rw [if_neg hzero, if_neg hzero, Int.toNat_natCast]

theorem grown_of_le (h : wanted ≤ (memory.getD .nil).bytes.size) :
    grown system memory wanted = .ok memory := if_neg (Nat.not_lt.mpr h)

theorem grown_of_lt (system : System) (h : (memory.getD .nil).bytes.size < wanted) :
    grown system memory wanted = ((memory.getD .nil).remap system
      (grownLength (memory.getD .nil).bytes.size wanted)).map some := if_pos h

theorem grown_of_refused {why : Refusal} (h : Refused system memory wanted why) :
    grown system memory wanted = .error (.refused why) := by
  rw [grown_of_lt system h.short, remap_grownLength h.short]
  by_cases hzero : (memory.getD .nil).bytes.size = 0
  · rw [if_pos hzero, h.map hzero]
    rfl
  · rw [if_neg hzero, h.remap hzero]
    rfl

/-- What can come of memory that has to have a wanted length: it is refused, it is long enough, or
it is replaced by a mapping of the doubled length. -/
theorem grown_cases (system : System) (memory : Option Memory) (wanted : Nat) :
    (∃ why, Refused system memory wanted why) ∨
      (wanted ≤ (memory.getD .nil).bytes.size ∧ grown system memory wanted = .ok memory) ∨
      ((memory.getD .nil).bytes.size < wanted ∧ ∃ m, grown system memory wanted = .ok (some m) ∧
        m.IsMapping ∧ m.bytes.size = grownLength (memory.getD .nil).bytes.size wanted) := by
  by_cases hlt : (memory.getD .nil).bytes.size < wanted
  · by_cases hzero : (memory.getD .nil).bytes.size = 0
    · cases hanswer : system.map (grownLength 0 wanted) with
      | error why => exact .inl ⟨why, hlt, fun _ => hanswer, absurd hzero⟩
      | ok bytes =>
        refine .inr (.inr ⟨hlt, ⟨.mapped, bytes.toArray, #[]⟩, ?_, ⟨rfl, rfl⟩, ?_⟩)
        · rw [grown_of_lt system hlt, remap_grownLength hlt, if_pos hzero, hanswer]
          rfl
        · rw [hzero]
          exact bytes.size_toArray
    · cases hanswer : system.remap (memory.getD .nil)
          (grownLength (memory.getD .nil).bytes.size wanted) with
      | error why => exact .inl ⟨why, hlt, fun h => absurd h hzero, fun _ => hanswer⟩
      | ok bytes =>
        refine .inr (.inr ⟨hlt, ⟨.mapped, bytes.toArray, #[]⟩, ?_, ⟨rfl, rfl⟩, ?_⟩)
        · rw [grown_of_lt system hlt, remap_grownLength hlt, if_neg hzero, hanswer]
          rfl
        · exact bytes.size_toArray
  · exact .inr (.inl ⟨Nat.not_lt.mp hlt, grown_of_le (Nat.not_lt.mp hlt)⟩)

/-- Where memory is available, mappings can be enlarged to any length, and their bytes stay in
front. -/
theorem grown_of_ample (hsystem : system.Ample) (h : ∀ m ∈ memory, m.IsMapping) (wanted : Nat) :
    ∃ memory', grown system memory wanted = .ok memory' ∧ (∀ m ∈ memory', m.IsMapping) ∧
      wanted ≤ (memory'.getD .nil).bytes.size ∧
      (memory.getD .nil).bytes.toList <+: (memory'.getD .nil).bytes.toList := by
  by_cases hlt : (memory.getD .nil).bytes.size < wanted
  · have hle := le_grownLength (memory.getD .nil).bytes.size wanted
    have hwanted := wanted_le_grownLength (memory.getD .nil).bytes.size wanted
    have hgrown := grown_of_lt system hlt
    rw [remap_grownLength hlt] at hgrown
    by_cases hzero : (memory.getD .nil).bytes.size = 0
    · have hpos : 0 < grownLength 0 wanted := by
        have := wanted_le_grownLength 0 wanted
        omega
      rw [if_pos hzero, hsystem.map_zero _ hpos] at hgrown
      refine ⟨_, hgrown, ?_, ?_, ?_⟩
      · intro m hm
        cases hm
        exact ⟨rfl, rfl⟩
      · rw [hzero] at hwanted
        simpa using hwanted
      · rw [Array.eq_empty_of_size_eq_zero hzero]
        exact List.nil_prefix
    · obtain ⟨m, rfl⟩ : ∃ m, memory = some m := by
        cases memory with
        | none => exact absurd rfl hzero
        | some m => exact ⟨m, rfl⟩
      rw [if_neg hzero] at hgrown
      rw [Option.getD_some] at hle hwanted hgrown
      obtain ⟨bytes, hanswer, hkeeps⟩ := hsystem.remap_keeps m _ (h m rfl) hle
      rw [hanswer] at hgrown
      refine ⟨_, hgrown, ?_, ?_, hkeeps⟩
      · intro m' hm'
        cases hm'
        exact ⟨rfl, rfl⟩
      · change wanted ≤ bytes.toArray.size
        rwa [bytes.size_toArray]
  · exact ⟨memory, grown_of_le (Nat.not_lt.mp hlt), h, Nat.not_lt.mp hlt, List.prefix_rfl⟩

end Segment

end ScalableVector
