import ScalableVector.Proofs.Enlargement

/-!
# Memory that cannot be enlarged

The system may refuse to enlarge the memory of a segment, be it a mapping or not. The start of a
buffer then changes nothing, but a word is counted although it is not written: the written part ends
behind the memory until a buffer is reset.
-/

namespace ScalableVector.Segment

variable {system : System} {s : Segment} {why : Refusal}

/-- Where memory is available, it is refused to what is not a mapping. -/
theorem refused_iff_of_ample (hample : system.Ample) (honly : system.EnlargesMappingsOnly)
    (memory : Option Memory) (wanted : Nat) :
    (∃ why, Refused system memory wanted why) ↔
      ∃ m ∈ memory, ¬m.IsMapping ∧ 0 < m.bytes.size ∧ m.bytes.size < wanted := by
  constructor
  · rintro ⟨why, hrefused⟩
    by_cases hzero : (memory.getD .nil).bytes.size = 0
    · have hwanted := wanted_le_grownLength 0 wanted
      have hshort := hrefused.short
      have hanswer := hrefused.map hzero
      rw [hample.map_zero _ (by omega)] at hanswer
      cases hanswer
    · cases memory with
      | none => exact absurd rfl hzero
      | some m =>
        refine ⟨m, rfl, ?_, Nat.pos_of_ne_zero hzero, hrefused.short⟩
        intro hmapping
        obtain ⟨bytes, hgiven, -⟩ :=
          hample.remap_keeps m _ hmapping (le_grownLength m.bytes.size wanted)
        cases hgiven.symm.trans (hrefused.remap hzero)
  · rintro ⟨m, hm, hother, hpos, hlt⟩
    cases hm
    obtain ⟨why, hrefused⟩ := honly m (grownLength m.bytes.size wanted) hother
    exact ⟨why, hlt, fun hzero => absurd hzero (Nat.ne_of_gt hpos), fun _ => hrefused⟩

theorem writeWord_of_refused (h : Refused system s.memory (s.size + 4) why) (w : Word) :
    s.writeWord system w = (.error (.growth (.refused why)), ⟨s.memory, s.size + 4⟩) := by
  simp only [writeWord, grown_of_refused h]

theorem refused_of_writeWord {w : Word} {f : Fault} {s' : Segment}
    (h : s.writeWord system w = (.error f, s')) :
    ∃ why, Refused system s.memory (s.size + 4) why := by
  rcases grown_cases system s.memory (s.size + 4) with hrefused | ⟨-, hok⟩ | ⟨-, m, hok, -⟩
  · exact hrefused
  all_goals
    simp only [writeWord, hok] at h
    cases h

theorem openBuffer_of_refused (h : Refused system s.memory (s.size + padding s.size) why) :
    s.openBuffer system = (.error (.growth (.refused why)), s) := by
  simp only [openBuffer, grown_of_refused h]

theorem refused_of_openBuffer {f : Fault} {s' : Segment}
    (h : s.openBuffer system = (.error f, s')) :
    ∃ why, Refused system s.memory (s.size + padding s.size) why := by
  rcases grown_cases system s.memory (s.size + padding s.size) with
    hrefused | ⟨-, hok⟩ | ⟨-, m, hok, -⟩
  · exact hrefused
  all_goals
    simp only [openBuffer, hok] at h
    cases h

theorem bufferBytes_of_capacity_lt (h : s.slice.capacity < s.size) (b : Buffer) :
    s.bufferBytes b = .error .bounds :=
  if_neg fun hbounds => Nat.not_le_of_lt h hbounds.2

/-- Up to the capacity, what is counted is read, whether it was written or not. -/
theorem bufferBytes_of_le_capacity {b : Buffer} {more : Nat} (hb : b.offset ≤ s.size)
    (h : s.size + more ≤ s.slice.capacity) :
    ∃ front back, s.bufferBytes b = .ok front ∧ back.length = more ∧
      bufferBytes ⟨s.memory, s.size + more⟩ b = .ok (front ++ back) := by
  refine ⟨_, (s.slice.whole.bytes.extract s.size (s.size + more)).toList, if_pos ⟨hb, by omega⟩,
    ?_, ?_⟩
  · rw [Memory.capacity] at h
    rw [Array.length_toList, Array.size_extract]
    omega
  · rw [bufferBytes, if_pos ⟨Nat.le_trans hb (Nat.le_add_right _ _), h⟩, ← Array.toList_append,
      Array.extract_append_extract, Nat.min_eq_left hb, Nat.max_eq_right (Nat.le_add_right _ _)]
    rfl

/-- As long as the memory is refused, each further word is counted, too. -/
theorem foldl_append_of_refused
    (h : ∀ wanted, s.size + 4 ≤ wanted → ∃ why, Refused system s.memory wanted why) (b : Buffer)
    (ws : List Word) :
    ws.foldl Sink.append (⟨system, s, b⟩ : SegmentSink) =
      ⟨system, ⟨s.memory, s.size + 4 * ws.length⟩, b⟩ := by
  induction ws generalizing s with
  | nil => rfl
  | cons w ws ih =>
    obtain ⟨why, hrefused⟩ := h (s.size + 4) (Nat.le_refl _)
    have hstep : Sink.append (⟨system, s, b⟩ : SegmentSink) w =
        ⟨system, ⟨s.memory, s.size + 4⟩, b⟩ := by
      change (⟨system, (s.writeWord system w).2, b⟩ : SegmentSink) = _
      rw [writeWord_of_refused hrefused]
    have hrest := @ih ⟨s.memory, s.size + 4⟩
      (fun wanted hwanted => h wanted (Nat.le_trans (Nat.le_add_right _ _) hwanted))
    rw [List.foldl_cons, hstep, hrest, List.length_cons, Nat.add_assoc, Nat.mul_add, Nat.add_comm 4]

/-- What a failed growth leaves behind, for any segment and any answer of the system. The start of a
buffer and the write of a word fail if and only if the system refuses the memory that they need. A
buffer that cannot start changes nothing. A word that cannot be written leaves the memory as it is,
but the written part and all buffers get four bytes longer; and so they do for each word after it,
as long as the memory is refused. Beyond the capacity the bytes of no buffer can be read then; up to
it they end with four bytes that nothing was written to. A reset of any buffer leaves what it leaves
without the failed write. Where memory is available, it is refused exactly if there are bytes that
are not a mapping. -/
theorem failed_growth_effect (system : System) (s : Segment) :
    ((∃ f s', s.openBuffer system = (.error f, s')) ↔
        ∃ why, Refused system s.memory (s.size + padding s.size) why) ∧
      (∀ f s', s.openBuffer system = (.error f, s') →
        (∃ why, f = .growth (.refused why)) ∧ s' = s) ∧
      (∀ w, (∃ f s', s.writeWord system w = (.error f, s')) ↔
        ∃ why, Refused system s.memory (s.size + 4) why) ∧
      (∀ w f s', s.writeWord system w = (.error f, s') →
        (∃ why, f = .growth (.refused why)) ∧ s'.memory = s.memory ∧ s'.size = s.size + 4 ∧
          ∀ b, s'.bufferLength b = s.bufferLength b + 4 ∧ s'.reset b = s.reset b ∧
            (s.slice.capacity < s'.size → s'.bufferBytes b = .error .bounds) ∧
            (s'.size ≤ s.slice.capacity → b.offset ≤ s.size →
              ∃ front back, s.bufferBytes b = .ok front ∧ back.length = 4 ∧
                s'.bufferBytes b = .ok (front ++ back)) ∧
            ((∀ wanted, s'.size ≤ wanted → ∃ why, Refused system s.memory wanted why) →
              ∀ ws : List Word, ws.foldl Sink.append (⟨system, s', b⟩ : SegmentSink) =
                ⟨system, ⟨s.memory, s'.size + 4 * ws.length⟩, b⟩)) ∧
      (system.Ample → system.EnlargesMappingsOnly → ∀ wanted,
        (∃ why, Refused system s.memory wanted why) ↔
          ∃ m ∈ s.memory, ¬m.IsMapping ∧ 0 < m.bytes.size ∧ m.bytes.size < wanted) := by
  refine ⟨⟨?_, ?_⟩, ?_, fun w => ⟨?_, ?_⟩, ?_,
    fun hample honly => refused_iff_of_ample hample honly _⟩
  · rintro ⟨f, s', hopen⟩
    exact refused_of_openBuffer hopen
  · rintro ⟨why, hrefused⟩
    exact ⟨_, _, openBuffer_of_refused hrefused⟩
  · intro f s' hopen
    obtain ⟨why, hrefused⟩ := refused_of_openBuffer hopen
    rw [openBuffer_of_refused hrefused] at hopen
    cases hopen
    exact ⟨⟨why, rfl⟩, rfl⟩
  · rintro ⟨f, s', hwrite⟩
    exact refused_of_writeWord hwrite
  · rintro ⟨why, hrefused⟩
    exact ⟨_, _, writeWord_of_refused hrefused w⟩
  · intro w f s' hwrite
    obtain ⟨why, hrefused⟩ := refused_of_writeWord hwrite
    rw [writeWord_of_refused hrefused] at hwrite
    cases hwrite
    refine ⟨⟨why, rfl⟩, rfl, rfl, fun b => ⟨?_, rfl, ?_, ?_, ?_⟩⟩
    · simp only [bufferLength]
      omega
    · intro hbeyond
      exact bufferBytes_of_capacity_lt hbeyond b
    · intro hroom hb
      exact bufferBytes_of_le_capacity hb hroom
    · intro hrefuses
      apply foldl_append_of_refused (s := ⟨s.memory, s.size + 4⟩)
      intro wanted hwanted
      exact hrefuses wanted (Nat.le_trans (Nat.le_add_right _ _) hwanted)

private def full : Segment := ofSlice (some ⟨.plain, Array.replicate 16 0, #[]⟩)

/-- A slice of eight bytes of a mapping of sixteen, all of them written. -/
private def partly : Segment :=
  ofSlice (some ⟨.mapped, Array.replicate 8 0, Array.replicate 8 1⟩)

private def mapping : Segment := ofSlice (some ⟨.mapped, Array.replicate 16 0, #[]⟩)

private def exhausted : System :=
  { System.unlimited with
    map := fun _ => .error .unavailable
    remap := fun _ _ => .error .unavailable }

private theorem writeWord_ofSlice (system : System) (m : Memory) (hpos : m.bytes.size ≠ 0)
    (h : system.remap m (grownLength m.bytes.size (m.bytes.size + 4)) = .error why) (w : Word) :
    (ofSlice (some m)).writeWord system w =
      (.error (.growth (.refused why)), ⟨some m, m.bytes.size + 4⟩) :=
  writeWord_of_refused (s := ofSlice (some m))
    ⟨Nat.lt_add_of_pos_right (by decide), fun hzero => absurd hzero hpos, fun _ => h⟩ w

/-- Memory that is not mapped, a part of a mapping, and a mapping for which there is no more memory:
each of them counts a word that it cannot hold, but only the bytes of the second can still be
read. With more memory the mapping would not be refused. -/
theorem failed_growth_effect_full :
    (∃ s', full.writeWord .unlimited 1 = (.error (.growth (.refused .invalid)), s') ∧
      full.openBuffer .unlimited = (.ok ⟨16⟩, full) ∧ s'.memory = full.memory ∧ s'.size = 20 ∧
      s'.bufferBytes ⟨16⟩ = .error .bounds) ∧
    (∃ s', partly.writeWord .unlimited 1 = (.error (.growth (.refused .invalid)), s') ∧
      s'.memory = partly.memory ∧ s'.size = 12 ∧
      ∃ back, back.length = 4 ∧ s'.bufferBytes ⟨0⟩ = .ok (List.replicate 8 0 ++ back)) ∧
    (∃ s', mapping.writeWord exhausted 1 = (.error (.growth (.refused .unavailable)), s') ∧
      s'.memory = mapping.memory ∧ s'.size = 20 ∧ s'.bufferBytes ⟨16⟩ = .error .bounds) ∧
    ¬∃ why, Refused .unlimited mapping.memory 20 why := by
  have hfull := writeWord_ofSlice .unlimited ⟨.plain, .replicate 16 0, #[]⟩ (by decide) rfl 1
  have hpartly :=
    writeWord_ofSlice .unlimited ⟨.mapped, .replicate 8 0, .replicate 8 1⟩ (by decide) rfl 1
  have hmapping := writeWord_ofSlice exhausted ⟨.mapped, .replicate 16 0, #[]⟩ (by decide) rfl 1
  refine ⟨⟨_, hfull, rfl, ?_⟩, ⟨_, hpartly, ?_⟩, ⟨_, hmapping, ?_⟩, ?_⟩
  · obtain ⟨-, hmemory, hsize, hbuffers⟩ :=
      (failed_growth_effect .unlimited full).2.2.2.1 1 _ _ hfull
    exact ⟨hmemory, hsize, (hbuffers ⟨16⟩).2.2.1 (by decide)⟩
  · obtain ⟨-, hmemory, hsize, hbuffers⟩ :=
      (failed_growth_effect .unlimited partly).2.2.2.1 1 _ _ hpartly
    obtain ⟨front, back, hfront, hback, hbytes⟩ :=
      (hbuffers ⟨0⟩).2.2.2.1 (by decide) (by decide)
    cases hfront
    exact ⟨hmemory, hsize, back, hback, hbytes⟩
  · obtain ⟨-, hmemory, hsize, hbuffers⟩ :=
      (failed_growth_effect exhausted mapping).2.2.2.1 1 _ _ hmapping
    exact ⟨hmemory, hsize, (hbuffers ⟨16⟩).2.2.1 (by decide)⟩
  · have hrefused := (failed_growth_effect .unlimited mapping).2.2.2.2 System.unlimited_ample
      System.unlimited_enlargesMappingsOnly 20
    rw [hrefused]
    rintro ⟨m, hm, hother, -⟩
    cases hm
    exact hother ⟨rfl, rfl⟩

/-- A word that cannot be written is counted: neither the written part nor the buffer at its end is
what it was. -/
theorem full_segment_counts_word :
    ¬∀ s s' : Segment, ∀ (w : Word) (f : Fault) (b : Buffer),
      s.writeWord .unlimited w = (.error f, s') →
        s'.size = s.size ∧ s'.length = s.length ∧ s'.code = s.code ∧
          s'.bufferLength b = s.bufferLength b := by
  intro h
  exact absurd (h full _ 1 _ ⟨16⟩ (writeWord_ofSlice _ _ (by decide) rfl 1)).1 (by decide)

end ScalableVector.Segment
