import Mathlib.Data.List.Infix
import Mathlib.Order.Bounds.Basic
import Mathlib.Tactic.Ring
import ScalableVector.Proofs.Tape

/-!
# Growth of the memory

Memory grows by doubling. It gets the least length that suffices, and the numbers on the way to it
fit into 64 bits. Over a whole history the length is that of the largest written part there ever
was: resets give nothing back.
-/

namespace ScalableVector.Segment

/-- The numbers that a length gets to by doubling and that are as large as wanted. -/
def doublings (length wanted : Nat) : Set Nat := {n | wanted ≤ n ∧ ∃ k, n = length * 2 ^ k}

theorem exists_doubled (length wanted : Nat) : ∃ k, doubled length wanted = length * 2 ^ k := by
  fun_induction doubled length wanted with
  | case1 length _ ih =>
    obtain ⟨k, hk⟩ := ih
    exact ⟨k + 1, by rw [hk]; ring⟩
  | case2 length => exact ⟨0, by rw [Nat.pow_zero, Nat.mul_one]⟩

theorem doubled_le (length wanted k : Nat) (h : wanted ≤ length * 2 ^ k) :
    doubled length wanted ≤ length * 2 ^ k := by
  fun_induction doubled length wanted generalizing k with
  | case1 length hlt ih =>
    cases k with
    | zero => omega
    | succ k =>
      have hstep : length * 2 ^ (k + 1) = 2 * length * 2 ^ k := by ring
      rw [hstep] at h ⊢
      exact ih k h
  | case2 length => exact Nat.le_mul_of_pos_right length (Nat.two_pow_pos k)

theorem doubled_lt (length wanted : Nat) :
    doubled length wanted < max (length + 1) (2 * wanted) := by
  fun_induction doubled length wanted with
  | case1 length _ ih => omega
  | case2 length => omega

theorem doubled_isLeast {length : Nat} (h : 0 < length) (wanted : Nat) :
    IsLeast (doublings length wanted) (doubled length wanted) := by
  refine ⟨⟨wanted_le_doubled wanted h, exists_doubled length wanted⟩, ?_⟩
  rintro n ⟨hwanted, k, rfl⟩
  exact doubled_le length wanted k hwanted

/-- A run of the loop that doubles, on 64-bit numbers. There is none through a doubling that
overflows. -/
inductive DoublesTo (wanted : Int64) : Int64 → Int64 → Prop
  | enough {n : Int64} (h : wanted ≤ n) : DoublesTo wanted n n
  | double {n r : Int64} (h : n < wanted) (fits : n.toInt * 2 ≤ Int64.maxValue.toInt)
      (rest : DoublesTo wanted (n * 2) r) : DoublesTo wanted n r

namespace DoublesTo

theorem eq_of_runs {wanted n r r' : Int64} (h : DoublesTo wanted n r) (h' : DoublesTo wanted n r') :
    r = r' := by
  induction h with
  | enough hn =>
    cases h' with
    | enough => rfl
    | double hlt => exact absurd hn (Int64.not_le.mpr hlt)
  | double hlt _ _ ih =>
    cases h' with
    | enough hn => exact absurd hn (Int64.not_le.mpr hlt)
    | double _ _ rest' => exact ih rest'

theorem doubled {length wanted : Nat} (hpos : 0 < length) (hlength : length < 2 ^ 63)
    (hwanted : wanted ≤ 2 ^ 62) :
    DoublesTo (.ofNat wanted) (.ofNat length) (.ofNat (doubled length wanted)) := by
  have htoInt : (Int64.ofNat wanted).toInt = wanted := Int64.toInt_ofNat_of_lt (by omega)
  have hmax : Int64.maxValue.toInt = 2 ^ 63 - 1 := rfl
  fun_induction Segment.doubled length wanted with
  | case1 length hlt ih =>
    have hn : (Int64.ofNat length).toInt = length := Int64.toInt_ofNat_of_lt hlength
    have hdouble : Int64.ofNat length * 2 = .ofNat (2 * length) := by
      rw [Int64.ofNat_mul, Int64.mul_comm]
      rfl
    refine .double ?_ ?_ ?_
    · rw [Int64.lt_iff_toInt_lt, hn, htoInt]
      omega
    · rw [hn, hmax]
      omega
    · rw [hdouble]
      exact ih (by omega) (by omega)
  | case2 length hstop =>
    have hn : (Int64.ofNat length).toInt = length := Int64.toInt_ofNat_of_lt hlength
    refine .enough ?_
    rw [Int64.le_iff_toInt_le, hn, htoInt]
    omega

end DoublesTo

/-! ## The length of the memory -/

def grownTo (length size : Nat) : Nat :=
  if length < size then grownLength length size else length

theorem grownTo_of_le {length size : Nat} (h : size ≤ length) : grownTo length size = length :=
  if_neg (Nat.not_lt.mpr h)

theorem le_grownTo (length size : Nat) : length ≤ grownTo length size := by
  rw [grownTo]
  split
  · exact le_grownLength length size
  · exact Nat.le_refl length

theorem length_grown {system : System} {memory memory' : Option Memory} {wanted : Nat}
    (h : grown system memory wanted = .ok memory') (size : Nat) :
    (mk memory' size).length = grownTo (mk memory size).length wanted := by
  rcases grown_cases system memory wanted with
    ⟨why, hrefused⟩ | ⟨hle, hsame⟩ | ⟨hlt, m, hnew, -, hsize⟩
  · rw [grown_of_refused hrefused] at h
    cases h
  · rw [hsame] at h
    cases h
    exact (grownTo_of_le hle).symm
  · rw [hnew] at h
    cases h
    exact hsize.trans (if_pos hlt).symm

theorem length_poke (memory : Option Memory) (start : Nat) (new : Bytes) (size : Nat) :
    (mk (memory.map (·.poke start new)) size).length = (mk memory size).length := by
  cases memory with
  | none => rfl
  | some m => exact Memory.size_overwrite m.bytes start new

theorem length_openBuffer {system : System} (hsystem : system.Ample) {s : Segment}
    (h : ∀ m ∈ s.memory, m.IsMapping) :
    (s.openBuffer system).2.length = grownTo s.length (s.openBuffer system).2.size := by
  obtain ⟨memory, hgrown, -⟩ := grown_of_ample hsystem h (s.size + padding s.size)
  simp only [openBuffer, hgrown]
  rw [length_poke]
  exact length_grown hgrown _

theorem length_writeWord {system : System} (hsystem : system.Ample) {s : Segment}
    (h : ∀ m ∈ s.memory, m.IsMapping) (w : Word) :
    (s.writeWord system w).2.length = grownTo s.length (s.writeWord system w).2.size := by
  obtain ⟨memory, hgrown, -⟩ := grown_of_ample hsystem h (s.size + 4)
  simp only [writeWord, hgrown]
  rw [length_poke]
  exact length_grown hgrown _

/-! ## The length over a history -/

/-- The memory is as long as a written part needs it: there is none for no bytes, and otherwise it
is fresh memory, doubled until it suffices. -/
def Suits (length size : Nat) : Prop :=
  size = 0 ∧ length = 0 ∨ 0 < size ∧ IsLeast (doublings 65536 size) length

theorem doubled_isLeast_of_lt {base length small large : Nat}
    (h : IsLeast (doublings base small) length) (hpos : 0 < base) (hlt : length < large) :
    IsLeast (doublings base large) (doubled length large) := by
  obtain ⟨⟨-, j, rfl⟩, -⟩ := h
  have hlength : 0 < base * 2 ^ j := Nat.mul_pos hpos (Nat.two_pow_pos j)
  refine ⟨⟨wanted_le_doubled large hlength, ?_⟩, ?_⟩
  · obtain ⟨k, hk⟩ := exists_doubled (base * 2 ^ j) large
    exact ⟨j + k, by rw [hk, Nat.pow_add, Nat.mul_assoc]⟩
  · rintro n ⟨hlarge, i, rfl⟩
    have hji : j ≤ i := by
      by_contra hij
      have hpow : 2 ^ i ≤ 2 ^ j := Nat.pow_le_pow_right (by decide) (by omega)
      have hmul := Nat.mul_le_mul_left base hpow
      omega
    obtain ⟨k, rfl⟩ := Nat.exists_eq_add_of_le hji
    rw [Nat.pow_add, ← Nat.mul_assoc] at hlarge ⊢
    exact doubled_le _ _ k hlarge

theorem Suits.grownTo {length peak : Nat} (h : Suits length peak) (size : Nat) :
    Suits (grownTo length size) (max peak size) := by
  rw [Segment.grownTo]
  rcases h with ⟨rfl, rfl⟩ | ⟨hpos, hleast⟩
  · rw [Nat.zero_max]
    split
    · next hsize => exact .inr ⟨hsize, doubled_isLeast (by decide) size⟩
    · exact .inl ⟨by omega, rfl⟩
  · have hpeak : peak ≤ length := hleast.1.1
    refine .inr ⟨by omega, ?_⟩
    split
    · next hlt =>
      have hmax : max peak size = size := by omega
      rw [hmax, grownLength, if_neg (by omega)]
      exact doubled_isLeast_of_lt hleast (by decide) hlt
    · refine ⟨⟨by omega, hleast.1.2⟩, ?_⟩
      rintro n ⟨hn, hdouble⟩
      exact hleast.2 ⟨by omega, hdouble⟩

namespace Session

namespace Shows

variable {system : System} {s : Session} {t : Tape}

theorem cells_le (h : s.Shows t) : t.cells.length ≤ s.segment.length := by
  have hle := h.cells.length_le
  rwa [Array.length_toList] at hle

/-- An edit enlarges the memory for the written part that it leaves, if it has to. -/
theorem length_edit (hsystem : system.Ample) (h : s.Shows t) (e : Edit) :
    (s.use system e.use).segment.length =
      grownTo s.segment.length (s.use system e.use).segment.size := by
  have hsame : s.segment.length = grownTo s.segment.length s.segment.size := by
    rw [grownTo_of_le]
    rw [h.head]
    exact Nat.le_trans h.head_le h.cells_le
  cases e with
  | next =>
    rw [Edit.use, segment_use_next]
    exact length_openBuffer hsystem h.mapped
  | write k w =>
    rw [Edit.use, use]
    split
    · exact length_writeWord hsystem h.mapped w
    · exact hsame
  | reset k =>
    rw [Edit.use, use]
    split
    · next b hb =>
      have hmem : b ∈ t.buffers := h.buffers ▸ List.mem_of_getElem? hb
      exact (grownTo_of_le (Nat.le_trans (h.offset_le b hmem) h.cells_le)).symm
    · exact hsame

end Shows

def peak (system : System) (edits : List Edit) : Nat :=
  (edits.inits.map fun front => (edited system front).segment.size).foldl max 0

variable {system : System}

theorem peak_concat (system : System) (edits : List Edit) (e : Edit) :
    peak system (edits ++ [e]) =
      max (peak system edits) (edited system (edits ++ [e])).segment.size := by
  simp [peak, List.inits_append]

theorem suits_edited (hsystem : system.Ample) (edits : List Edit) :
    Suits (edited system edits).segment.length (peak system edits) := by
  induction edits using List.reverseRecOn with
  | nil => exact .inl ⟨rfl, rfl⟩
  | append_singleton edits e ih =>
    have hlength := (edited_shows hsystem edits).length_edit hsystem e
    rw [← edited_concat] at hlength
    rw [hlength, peak_concat]
    exact ih.grownTo _

theorem length_edited_mono (hsystem : system.Ample) {front edits : List Edit}
    (h : front <+: edits) :
    (edited system front).segment.length ≤ (edited system edits).segment.length := by
  obtain ⟨back, rfl⟩ := h
  induction back using List.reverseRecOn with
  | nil => rw [List.append_nil]
  | append_singleton back e ih =>
    have hlength := (edited_shows hsystem (front ++ back)).length_edit hsystem e
    rw [← List.append_assoc, edited_concat, hlength]
    exact Nat.le_trans ih (le_grownTo _ _)

theorem size_le_peak (system : System) (edits : List Edit) :
    (edited system edits).segment.size ≤ peak system edits := by
  induction edits using List.reverseRecOn with
  | nil => exact Nat.le_refl 0
  | append_singleton edits e =>
    rw [peak_concat]
    exact Nat.le_max_right _ _

theorem offset_le_peak (hsystem : system.Ample) {edits : List Edit} {b : Buffer}
    (hb : b ∈ (edited system edits).buffers) :
    b.offset ≤ peak system edits := by
  induction edits using List.reverseRecOn with
  | nil => cases hb
  | append_singleton edits e ih =>
    have hsize := size_le_peak system (edits ++ [e])
    rw [size_edited hsystem, Tape.edited_concat] at hsize
    rw [buffers_edited hsystem, Tape.edited_concat] at hb
    have hold (hmem : b ∈ (Tape.edited edits).buffers) : b.offset ≤ peak system (edits ++ [e]) := by
      rw [← buffers_edited hsystem] at hmem
      rw [peak_concat]
      exact Nat.le_trans (ih hmem) (Nat.le_max_left _ _)
    rcases (Tape.edited edits).edit_cases e with ⟨-, hnew⟩ | ⟨k, a, -, -, hedit⟩
    · rcases hnew b hb with hmem | hoffset
      · exact hold hmem
      · rwa [hoffset]
    · rw [hedit] at hb
      exact hold hb

/-- A word was written through a buffer that had been handed out. -/
def Writes (system : System) (edits : List Edit) : Prop :=
  ∃ front k w back, edits = front ++ .write k w :: back ∧ k < (edited system front).buffers.length

theorem writes_concat {edits : List Edit} {e : Edit} :
    Writes system (edits ++ [e]) ↔
      Writes system edits ∨ ∃ k w, e = .write k w ∧ k < (edited system edits).buffers.length := by
  constructor
  · rintro ⟨front, k, w, back, hsplit, hk⟩
    rcases List.eq_nil_or_concat' back with rfl | ⟨back, last, rfl⟩
    · obtain ⟨rfl, hlast⟩ := List.append_inj' hsplit rfl
      exact .inr ⟨k, w, List.singleton_inj.mp hlast, hk⟩
    · rw [← List.cons_append, ← List.append_assoc] at hsplit
      obtain ⟨rfl, -⟩ := List.append_inj' hsplit rfl
      exact .inl ⟨front, k, w, back, rfl, hk⟩
  · rintro (⟨front, k, w, back, rfl, hk⟩ | ⟨k, w, rfl, hk⟩)
    · exact ⟨front, k, w, back ++ [e], by rw [List.append_assoc, List.cons_append], hk⟩
    · exact ⟨edits, k, w, [], rfl, hk⟩

-- A buffer at the start of the memory needs no padding, so that only a word can be the first to
-- take bytes.
theorem peak_pos_iff (hsystem : system.Ample) (edits : List Edit) :
    0 < peak system edits ↔ Writes system edits := by
  induction edits using List.reverseRecOn with
  | nil =>
    apply iff_of_false
    · exact Nat.lt_irrefl 0
    · rintro ⟨front, k, w, back, hsplit, -⟩
      simp at hsplit
  | append_singleton edits e ih =>
    have hsize := size_le_peak system edits
    rw [writes_concat, ← ih, peak_concat, lt_max_iff, size_edited hsystem, Tape.edited_concat]
    rw [size_edited hsystem] at hsize
    apply or_congr_right'
    intro hpeak
    have hhead : (Tape.edited edits).head = 0 := by omega
    cases e with
    | next =>
      apply iff_of_false
      · simp [Tape.edit, Tape.mark, Tape.put, hhead, padding]
      · rintro ⟨k, w, hwrite, -⟩
        cases hwrite
    | write k w =>
      rw [Tape.edit, ← buffers_edited hsystem]
      split
      · next hk =>
        apply iff_of_true
        · exact Nat.succ_pos _
        · exact ⟨k, w, rfl, hk⟩
      · next hk =>
        apply iff_of_false
        · omega
        · rintro ⟨k', w', hwrite, hk'⟩
          cases hwrite
          exact hk hk'
    | reset k =>
      apply iff_of_false
      · rw [Tape.edit, ← buffers_edited hsystem]
        split
        · next b hb =>
          have hoffset := offset_le_peak hsystem (List.mem_of_getElem? hb)
          simp only
          omega
        · omega
      · rintro ⟨k', w, hwrite, -⟩
        cases hwrite

/-- Memory grows to the least length that doubling gives. The loop comes to its end and no number
in it is too large for 64 bits; memory that is long enough is left as it is, and other memory is to
get this length, starting from 65536 if it has no bytes. Over any history for which there is memory,
it has no bytes as long as nothing was written. After that it has the least doubling of 65536 that
holds the largest written part there ever was, and it never gets shorter. -/
theorem growth_by_doubling :
    (∀ length wanted : Nat, length < 2 ^ 63 → wanted ≤ 2 ^ 62 → length < wanted →
      let base := if length = 0 then 65536 else length
      (∀ r, DoublesTo (.ofNat wanted) (.ofNat base) r ↔ r = .ofNat (grownLength length wanted)) ∧
        grownLength length wanted < 2 ^ 63 ∧
        IsLeast (doublings base wanted) (grownLength length wanted)) ∧
    (∀ (system : System) (s : Segment) (wanted : Nat),
      (wanted ≤ s.length → grown system s.memory wanted = .ok s.memory) ∧
        (s.length < wanted → grown system s.memory wanted =
          (s.slice.remap system (grownLength s.length wanted)).map some)) ∧
    ∀ system : System, system.Ample → ∀ edits : List Edit,
      (¬Writes system edits → (edited system edits).segment.length = 0) ∧
        (Writes system edits →
          IsLeast (doublings 65536 (peak system edits)) (edited system edits).segment.length) ∧
        ∀ front, front <+: edits →
          (edited system front).segment.length ≤ (edited system edits).segment.length := by
  refine ⟨?_, ?_, ?_⟩
  · intro length wanted hlength hwanted hlt base
    have hpos : 0 < base := by
      dsimp only [base]
      split <;> omega
    have hbase : base < 2 ^ 63 := by
      dsimp only [base]
      split <;> omega
    have hruns := DoublesTo.doubled hpos hbase hwanted
    have hlast : grownLength length wanted < max (base + 1) (2 * wanted) := doubled_lt base wanted
    refine ⟨?_, by omega, doubled_isLeast hpos wanted⟩
    intro r
    constructor
    · intro hr
      exact hr.eq_of_runs hruns
    · rintro rfl
      exact hruns
  · intro system s wanted
    exact ⟨grown_of_le, grown_of_lt system⟩
  · intro system hsystem edits
    refine ⟨?_, ?_, fun front => length_edited_mono hsystem⟩
    · intro hnone
      rw [← peak_pos_iff hsystem] at hnone
      rcases suits_edited hsystem edits with ⟨-, hzero⟩ | ⟨hpos, -⟩
      · exact hzero
      · exact absurd hpos hnone
    · intro hwrites
      rw [← peak_pos_iff hsystem] at hwrites
      rcases suits_edited hsystem edits with ⟨hzero, -⟩ | ⟨-, hleast⟩
      · omega
      · exact hleast

private def oneWord : List Edit := [.next, .write 0 0x04a20020]

/-- A word more than 65536 bytes takes one doubling, and a first word takes none. -/
theorem growth_by_doubling_oneWord :
    DoublesTo (.ofNat 65540) (.ofNat 65536) (.ofNat 131072) ∧
      Writes .unlimited oneWord ∧ peak .unlimited oneWord = 4 ∧
        (edited .unlimited oneWord).segment.length = 65536 := by
  obtain ⟨hloop, -, hhistory⟩ := growth_by_doubling
  have hwrites : Writes .unlimited oneWord := ⟨[.next], 0, 0x04a20020, [], rfl, by decide⟩
  have hpeak : peak .unlimited oneWord = 4 := by
    simp only [peak, size_edited System.unlimited_ample]
    rfl
  have hleast := (hhistory _ System.unlimited_ample oneWord).2.1 hwrites
  rw [hpeak] at hleast
  refine ⟨?_, hwrites, hpeak, ?_⟩
  · obtain ⟨hruns, -⟩ := hloop 65536 65540 (by decide) (by decide) (by decide)
    apply (hruns _).mpr
    simp [grownLength, doubled]
  · rw [hleast.unique (doubled_isLeast (by decide) 4)]
    simp [doubled]

end Session

end ScalableVector.Segment
