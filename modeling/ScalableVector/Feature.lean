import ScalableVector.Text.Basic
import ScalableVector.Text.LowerCase
import ScalableVector.Text.Quoted

/-!
# Instruction set extensions

The base vector instructions are always there. Three extensions can be switched on: the second
generation of the instruction set, its bit permutations, and the 8-bit integer matrix multiply. A
set of extensions is a 64-bit number; other bits than those of the three are kept and have no name.
-/

namespace ScalableVector

structure FeatureSet where
  bits : UInt64
  deriving DecidableEq, Repr

namespace FeatureSet

def empty : FeatureSet := ⟨0⟩

def sve2 : FeatureSet := ⟨1⟩

def bitPerm : FeatureSet := ⟨2⟩

def i8mm : FeatureSet := ⟨4⟩

def union (a b : FeatureSet) : FeatureSet := ⟨a.bits ||| b.bits⟩

def diff (a b : FeatureSet) : FeatureSet := ⟨a.bits &&& ~~~b.bits⟩

def includes (a b : FeatureSet) : Bool := a.bits &&& b.bits == b.bits

def all : FeatureSet := (sve2.union bitPerm).union i8mm

def named : List (String × FeatureSet) := [("sve2", sve2), ("bitperm", bitPerm), ("i8mm", i8mm)]

/-- The names of the extensions in a set, in a fixed order, or `none`. -/
def text (s : FeatureSet) : String :=
  match (named.filter fun entry => s.includes entry.2).map Prod.fst with
  | [] => "none"
  | names => ",".intercalate names

def ofName? (name : Bytes) : Option FeatureSet :=
  if name.isEmpty ∨ name = Bytes.ofString "none" then some empty
  else if name = Bytes.ofString "all" then some all
  else (named.find? fun entry => Bytes.ofString entry.1 = name).map Prod.snd

def normalName (element : Bytes) : Bytes := Text.lower (Text.trim element)

def ofElements : List Bytes → Except Bytes FeatureSet
  | [] => .ok empty
  | e :: es =>
    match ofName? (normalName e) with
    | none => .error (normalName e)
    | some s => (ofElements es).map s.union

/-- Reads a list of extension names separated by commas; fails with the first unknown name. -/
def parse (list : Bytes) : Except Bytes FeatureSet := ofElements (list.splitOn 0x2c)

def unknownMessage (name : Bytes) : String := "unknown feature " ++ Text.quote name

/-- What is told of a list: its extensions, or none of them and the message for an unknown name. -/
def report : Except Bytes FeatureSet → FeatureSet × Option String
  | .ok s => (s, none)
  | .error name => (empty, some (unknownMessage name))

/-- The set that an environment setting selects: all extensions if it is absent or empty. -/
def ofSetting (setting : Option Bytes) : Except Bytes FeatureSet :=
  match setting with
  | none | some [] => .ok all
  | some list => parse list

end FeatureSet

end ScalableVector
