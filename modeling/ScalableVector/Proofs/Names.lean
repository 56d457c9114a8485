import ScalableVector.Instruction.Catalogue

/-!
# Shapes and names

A list of numbers that are fixed at some bits only is searched for two that agree, by splitting it
at one bit after the other. So no two instructions of the catalogue have names that differ in the
case of letters only.
-/

namespace ScalableVector

/-!
## Shapes

A shape fixes some bits of a number. Whether two of many shapes fit one number is decided by
splitting the list at a bit that all of them fix, and each part again, until the parts are single
shapes.
-/

/-- Bits that a number must have at the places of a mask, with what they stand for. -/
structure Shape (α : Type) where
  owner : α
  mask : Nat
  bits : Nat

namespace Shape

variable {α : Type}

def fits (n : Nat) (s : Shape α) : Bool := n &&& s.mask == s.bits

def admits (bit : Nat) (value : Bool) (s : Shape α) : Bool :=
  ((s.mask >>> bit) % 2).beq 0 || ((s.bits >>> bit) % 2).beq value.toNat

/-- `f n`, with the number evaluated before it is passed on. -/
def strictly {β : Type} (n : Nat) (f : Nat → β) : β :=
  match n with
  | 0 => f 0
  | m + 1 => f (m + 1)

theorem strictly_eq {β : Type} (n : Nat) (f : Nat → β) : strictly n f = f n := by
  cases n <;> rfl

/-- The bits that all shapes fix and that are not the same in all. -/
def telling (first : Shape α) (l : List (Shape α)) : Nat :=
  l.foldr (fun s m => s.mask &&& m) first.mask &&&
    l.foldr (fun s m => (s.bits ^^^ first.bits) ||| m) 0

/-- No number fits two shapes of the list. The depth bounds the number of splits. -/
def apart : Nat → List (Shape α) → Bool
  | _, [] => true
  | _, [_] => true
  | 0, _ :: _ :: _ => false
  | depth + 1, s :: t :: l =>
    strictly (telling s (t :: l)) fun m => strictly m.log2 fun bit =>
      apart depth ((s :: t :: l).filter (admits bit true)) &&
        apart depth ((s :: t :: l).filter (admits bit false))

def evaluated (test : List (Shape α) → Bool) : List (Shape α) → List (Shape α) → Bool
  | [], done => test done
  | s :: l, done => strictly s.mask fun m => strictly s.bits fun b =>
    evaluated test l (⟨s.owner, m, b⟩ :: done)

theorem evaluated_eq (test : List (Shape α) → Bool) (l done : List (Shape α)) :
    evaluated test l done = test (l.reverse ++ done) := by
  induction l generalizing done with
  | nil => rfl
  | cons s l ih => rw [evaluated, strictly_eq, strictly_eq, ih, List.reverse_cons,
      List.append_assoc, List.singleton_append]

private theorem admits_of_fits {n : Nat} {s : Shape α} (h : s.fits n = true) (bit : Nat) :
    s.admits bit (n.testBit bit) = true := by
  have hshift (m : Nat) : (m >>> bit) % 2 = (m.testBit bit).toNat := by
    rw [Nat.toNat_testBit, Nat.shiftRight_eq_div_pow]
  have hb := congrArg (fun m => m.testBit bit) (beq_iff_eq.mp h)
  simp only [Nat.testBit_and] at hb
  rw [admits, hshift, hshift, ← hb]
  cases n.testBit bit <;> cases s.mask.testBit bit <;> rfl

private theorem filter_fits_admits (n bit : Nat) (l : List (Shape α)) :
    (l.filter (admits bit (n.testBit bit))).filter (fits n) = l.filter (fits n) := by
  rw [List.filter_filter]
  apply List.filter_congr
  intro s _
  cases h : s.fits n with
  | false => rfl
  | true => rw [admits_of_fits h, Bool.and_self]

private theorem length_fits_of_apart {depth : Nat} {l : List (Shape α)}
    (h : apart depth l = true) (n : Nat) : (l.filter (fits n)).length ≤ 1 := by
  fun_induction apart depth l with
  | case1 => exact Nat.zero_le 1
  | case2 => exact List.length_filter_le _ _
  | case3 => cases h
  | case4 depth s t l ih₁ ih₂ =>
    rw [strictly_eq, strictly_eq, Bool.and_eq_true] at h
    generalize (telling s (t :: l)).log2 = bit at h
    rw [← filter_fits_admits n bit]
    cases n.testBit bit with
    | true => exact ih₁ bit h.1
    | false => exact ih₂ bit h.2

theorem eq_of_fits {depth : Nat} {l : List (Shape α)} (h : evaluated (apart depth) l [] = true)
    {s t : Shape α} (hs : s ∈ l) (ht : t ∈ l) {n : Nat} (hsn : s.fits n = true)
    (htn : t.fits n = true) : s = t := by
  rw [evaluated_eq, List.append_nil] at h
  have hlen := length_fits_of_apart h n
  have hs' : s ∈ l.reverse.filter (fits n) :=
    List.mem_filter.mpr ⟨List.mem_reverse.mpr hs, hsn⟩
  have ht' : t ∈ l.reverse.filter (fits n) :=
    List.mem_filter.mpr ⟨List.mem_reverse.mpr ht, htn⟩
  generalize l.reverse.filter (fits n) = m at hlen hs' ht'
  match m, hlen with
  | [], _ => cases hs'
  | [r], _ => rw [List.mem_singleton.mp hs', List.mem_singleton.mp ht']

end Shape

/-!
## Names of instructions

No two instructions of the catalogue have names that differ in the case of letters only.
-/

namespace Catalogue

private def textCode (s : Bytes) : Nat := s.foldr (fun b n => n * 256 + b.toNat) 0

/-- The name of an instruction in lower case, as a number of at most 32 bytes. -/
private def nameShape (i : Instruction) : Shape Instruction where
  owner := i
  mask := (1 <<< 256) - 1
  bits := textCode (Text.lower (Bytes.ofString i.name)) &&& ((1 <<< 256) - 1)

private theorem names_apart :
    Shape.evaluated (Shape.apart 256) (instructions.map nameShape) [] = true := by
  decide +kernel

theorem eq_of_lower_name {i j : Instruction} (hi : i ∈ instructions) (hj : j ∈ instructions)
    (h : Text.lower (Bytes.ofString i.name) = Text.lower (Bytes.ofString j.name)) : i = j := by
  have hfits : (nameShape j).fits (textCode (Text.lower (Bytes.ofString i.name))) = true := by
    rw [h]
    exact beq_self_eq_true _
  exact congrArg Shape.owner (Shape.eq_of_fits names_apart (List.mem_map_of_mem hi)
    (List.mem_map_of_mem hj) (beq_self_eq_true _) hfits)

theorem eq_of_name {i j : Instruction} (hi : i ∈ instructions) (hj : j ∈ instructions)
    (h : i.name = j.name) : i = j :=
  eq_of_lower_name hi hj (by rw [h])

theorem findLowered?_eq_some {i : Instruction} (hi : i ∈ instructions) {name : Bytes}
    (h : Text.lower (Bytes.ofString i.name) = name) : findLowered? name = some i := by
  cases hfind : lowered.find? fun entry => entry.1 = name with
  | none =>
    have hmiss := List.find?_eq_none.mp hfind _ (List.mem_map_of_mem hi)
    exact absurd (decide_eq_true h) hmiss
  | some entry =>
    obtain ⟨j, hj, rfl⟩ := List.mem_map.mp (List.mem_of_find?_eq_some hfind)
    have hname := List.find?_some hfind
    rw [findLowered?, hfind, Option.map_some,
      eq_of_lower_name hi hj (h.trans (of_decide_eq_true hname).symm)]

theorem mem_of_findLowered? {name : Bytes} {i : Instruction} (h : findLowered? name = some i) :
    i ∈ instructions ∧ Text.lower (Bytes.ofString i.name) = name := by
  obtain ⟨entry, hfind, rfl⟩ := Option.map_eq_some_iff.mp h
  obtain ⟨j, hj, rfl⟩ := List.mem_map.mp (List.mem_of_find?_eq_some hfind)
  have hname := List.find?_some hfind
  exact ⟨hj, of_decide_eq_true hname⟩

theorem findLowered?_eq_none {name : Bytes}
    (h : ∀ i ∈ instructions, Text.lower (Bytes.ofString i.name) ≠ name) :
    findLowered? name = none := by
  rw [findLowered?, Option.map_eq_none_iff, List.find?_eq_none]
  intro entry hentry
  obtain ⟨i, hi, rfl⟩ := List.mem_map.mp hentry
  rw [decide_eq_true_eq]
  exact h i hi

end Catalogue

end ScalableVector
