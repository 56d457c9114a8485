import ScalableVector.Instruction.Basic

/-!
# Instructions on predicates

Predicates have numbers of four bits, also where they govern an operation on predicates.
-/

namespace ScalableVector.Mask

def fourChecks : List Check := [.register 0, .register 1, .register 2, .register 3]

def fourFields : List Field := [.register 0 0, .register 1 10, .register 2 5, .register 3 16]

def breakFields : List Field := [.register 0 0, .register 1 10, .register 2 5]

def logical : Family where
  signature := [.plain, .zeroing, .plain, .plain]
  requirement := .empty
  checks := fourChecks
  fields := fourFields
  entries := [⟨"PAnd", "and", 0x25004000⟩, ⟨"Ands", "ands", 0x25404000⟩,
    ⟨"PBic", "bic", 0x25004010⟩, ⟨"Bics", "bics", 0x25404010⟩, ⟨"PEor", "eor", 0x25004200⟩,
    ⟨"Eors", "eors", 0x25404200⟩, ⟨"POrr", "orr", 0x25804000⟩, ⟨"Orn", "orn", 0x25804010⟩,
    ⟨"Nor", "nor", 0x25804200⟩, ⟨"Nand", "nand", 0x25804210⟩, ⟨"Orrs", "orrs", 0x25c04000⟩,
    ⟨"Orns", "orns", 0x25c04010⟩, ⟨"Nors", "nors", 0x25c04200⟩, ⟨"Nands", "nands", 0x25c04210⟩,
    ⟨"Brkpa", "brkpa", 0x2500c000⟩, ⟨"Brkpb", "brkpb", 0x2500c010⟩,
    ⟨"Brkpas", "brkpas", 0x2540c000⟩, ⟨"Brkpbs", "brkpbs", 0x2540c010⟩]

def selection : Family where
  signature := [.plain, .plain, .plain, .plain]
  requirement := .empty
  checks := fourChecks
  fields := fourFields
  entries := [⟨"PSel", "sel", 0x25004210⟩]

/-- The negation of a predicate, which is the exclusive disjunction with the governing predicate. -/
def negation : Family where
  signature := [.plain, .zeroing, .plain]
  requirement := .empty
  checks := [.register 0, .register 1, .register 2]
  fields := [.register 0 0, ⟨.operand 1, [⟨0, none, 10⟩, ⟨0, none, 16⟩]⟩, .register 2 5]
  entries := [⟨"PNot", "not", 0x25004200⟩]

/-- The copy of active elements, which is a choice between source and destination. -/
def mergingMove : Family where
  signature := [.plain, .merging, .plain]
  requirement := .empty
  checks := [.register 0, .register 1, .register 2]
  fields := [⟨.operand 0, [⟨0, none, 0⟩, ⟨0, none, 16⟩]⟩, .register 1 10, .register 2 5]
  entries := [⟨"PMovMerge", "mov", 0x25004210⟩]

/-- The copy of active elements, which is the conjunction of the source with itself. -/
def zeroingMove : Family where
  signature := [.plain, .zeroing, .plain]
  requirement := .empty
  checks := [.register 0, .register 1, .register 2]
  fields := [.register 0 0, .register 1 10, ⟨.operand 2, [⟨0, none, 5⟩, ⟨0, none, 16⟩]⟩]
  entries := [⟨"PMovZero", "mov", 0x25004000⟩, ⟨"PMovsZero", "movs", 0x25404000⟩]

/-- The copy of a predicate, which is the disjunction of the source with itself. -/
def move : Family where
  signature := [.plain, .plain]
  requirement := .empty
  checks := [.register 0, .register 1]
  fields := [.register 0 0, ⟨.operand 1, [⟨0, none, 10⟩, ⟨0, none, 5⟩, ⟨0, none, 16⟩]⟩]
  entries := [⟨"PMov", "mov", 0x25804000⟩, ⟨"PMovs", "movs", 0x25c04000⟩]

def reversal : Family where
  signature := [.element, .plain, .plain]
  requirement := .empty
  checks := [.size 0 .plain, .register 1, .register 2]
  fields := [.size 0, .register 1 0, .register 2 5]
  entries := [⟨"PRev", "rev", 0x05344000⟩]

def unpacking : Family where
  signature := [.plain, .plain]
  requirement := .empty
  checks := [.register 0, .register 1]
  fields := [.register 0 0, .register 1 5]
  entries := [⟨"Punpklo", "punpklo", 0x05304000⟩, ⟨"Punpkhi", "punpkhi", 0x05314000⟩]

def permutation : Family where
  signature := [.element, .plain, .plain, .plain]
  requirement := .empty
  checks := [.register 3, .size 0 .plain, .register 1, .register 2]
  fields := [.size 0, .register 1 0, .register 2 5, .register 3 16]
  entries := [⟨"PZip1", "zip1", 0x05204000⟩, ⟨"PZip2", "zip2", 0x05204400⟩,
    ⟨"PUzp1", "uzp1", 0x05204800⟩, ⟨"PUzp2", "uzp2", 0x05204c00⟩, ⟨"PTrn1", "trn1", 0x05205000⟩,
    ⟨"PTrn2", "trn2", 0x05205400⟩]

def nextBreak : Family where
  signature := [.plain, .zeroing, .plain, .plain]
  requirement := .empty
  checks := [.aliased "pd" 0 "pdm" 3, .register 0, .register 1, .register 2]
  fields := breakFields
  entries := [⟨"Brkn", "brkn", 0x25184000⟩, ⟨"Brkns", "brkns", 0x25584000⟩]

def zeroingBreak : Family where
  signature := [.plain, .zeroing, .plain]
  requirement := .empty
  checks := [.register 0, .register 1, .register 2]
  fields := breakFields
  entries := [⟨"Brka", "brka", 0x25104000⟩, ⟨"Brkas", "brkas", 0x25504000⟩,
    ⟨"Brkb", "brkb", 0x25904000⟩, ⟨"Brkbs", "brkbs", 0x25d04000⟩]

def mergingBreak : Family where
  signature := [.plain, .merging, .plain]
  requirement := .empty
  checks := [.register 0, .register 1, .register 2]
  fields := breakFields
  entries := [⟨"BrkaMerge", "brka", 0x25104010⟩, ⟨"BrkbMerge", "brkb", 0x25904010⟩]

def next : Family where
  signature := [.element, .plain, .plain, .plain]
  requirement := .empty
  checks := [.register 2, .register 3, .aliased "pd" 1 "pdn" 3, .size 0 .plain, .register 1]
  fields := [.size 0, .register 1 0, .register 2 5]
  entries := [⟨"Pnext", "pnext", 0x2519c400⟩]

def first : Family where
  signature := [.plain, .plain, .plain]
  requirement := .empty
  checks := [.register 1, .register 2, .aliased "pd" 0 "pdn" 2, .register 0]
  fields := [.register 0 0, .register 1 5]
  entries := [⟨"Pfirst", "pfirst", 0x2558c000⟩]

def test : Family where
  signature := [.plain, .plain]
  requirement := .empty
  checks := [.register 0, .register 1]
  fields := [.register 0 10, .register 1 5]
  entries := [⟨"Ptest", "ptest", 0x2550c000⟩]

/-- The empty predicate, and the fault register without a predicate. -/
def constant : Family where
  signature := [.plain]
  requirement := .empty
  checks := [.register 0]
  fields := [.register 0 0]
  entries := [⟨"Pfalse", "pfalse", 0x2518e400⟩, ⟨"Rdffr", "rdffr", 0x2519f000⟩]

def faultRead : Family where
  signature := [.plain, .zeroing]
  requirement := .empty
  checks := [.register 1, .register 0]
  fields := [.register 0 0, .register 1 5]
  entries := [⟨"RdffrPred", "rdffr", 0x2518f000⟩, ⟨"Rdffrs", "rdffrs", 0x2558f000⟩]

def faultWrite : Family where
  signature := [.plain]
  requirement := .empty
  checks := [.register 0]
  fields := [.register 0 5]
  entries := [⟨"Wrffr", "wrffr", 0x25289000⟩]

def faultSet : Family where
  signature := []
  requirement := .empty
  checks := []
  fields := []
  entries := [⟨"Setffr", "setffr", 0x252c9000⟩]

def pattern : Family where
  signature := [.element, .plain, .pattern]
  requirement := .empty
  checks := [.bounds "pattern" 2 0 31, .size 0 .plain, .register 1]
  fields := [.size 0, .register 1 0, .whole 2 5]
  entries := [⟨"Ptrue", "ptrue", 0x2518e000⟩, ⟨"Ptrues", "ptrues", 0x2519e000⟩]

def families : List Family :=
  [logical, selection, negation, mergingMove, zeroingMove, move, reversal, unpacking, permutation,
    nextBreak, zeroingBreak, mergingBreak, next, first, test, constant, faultRead, faultWrite,
    faultSet, pattern]

end ScalableVector.Mask
