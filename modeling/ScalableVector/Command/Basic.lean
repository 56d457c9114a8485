import ScalableVector.Command.Flag
import ScalableVector.Text.LowerCase

/-!
# Commands

The commands of the program, which of them the arguments name, and which are suggested for a word
that names none.
-/

namespace ScalableVector

/-- The commands; `root` is the program without a command. -/
inductive Command
  | root
  | completion
  | encode
  | help
  | version
  deriving DecidableEq, Repr

namespace Command

def all : List Command := [completion, encode, help, version]

def name : Command → String
  | root => "sveasm"
  | completion => "completion"
  | encode => "encode"
  | help => "help"
  | version => "version"

def path : Command → String
  | root => root.name
  | c => root.name ++ " " ++ c.name

def globalFlags : List Flag := [.features, .verbose]

def ownFlags : Command → List Flag
  | encode => [.help, .output]
  | _ => [.help]

def flags (c : Command) : List Flag := c.ownFlags ++ globalFlags

def named? (word : Bytes) : Option Command := all.find? fun c => Bytes.ofString c.name = word

end Command

/-!
## Suggestions

The commands that a mistyped word may stand for: those whose names it begins, and those whose names
are at most two changes of single bytes away, letter case aside.
-/

namespace Suggestion

/-- The next row of a table of distances, without its first entry. Entry `j` of a row is the
distance between the text read so far and the first `j` bytes of the other text; `left` is the entry
before and `above` the rest of the row before, which starts one column to the left. -/
def rowTail (c : UInt8) (left : Nat) : (above : List Nat) → Bytes → List Nat
  | diagonal :: up :: above, d :: t =>
    let entry := if c = d then diagonal else min (min left up) diagonal + 1
    entry :: rowTail c entry (up :: above) t
  | _, _ => []

def lastRow (t : Bytes) (count : Nat) (row : List Nat) : Bytes → List Nat
  | [] => row
  | c :: s => lastRow t (count + 1) ((count + 1) :: rowTail c (count + 1) row t) s

/-- The least number of insertions, deletions and replacements of bytes that turn one text into the
other. -/
def distance (s t : Bytes) : Nat := (lastRow t 0 (List.range (t.length + 1)) s).getLastD 0

def candidates : List Command := [.encode, .version, .completion]

def reach : Nat := 2

def isNear (word : Bytes) (c : Command) : Bool :=
  let typed := Text.lower word
  let name := Bytes.ofString c.name
  distance typed name ≤ reach || typed.isPrefixOf name

def names (word : Bytes) : List String := (candidates.filter (isNear word)).map Command.name

def text (word : Bytes) : String :=
  if (names word).isEmpty then ""
  else "\n\nDid you mean this?\n" ++ String.join ((names word).map fun n => "\t" ++ n ++ "\n")

end Suggestion

/-!
## Command lookup

The command is named by the first argument that is neither a flag nor the value of one. It is looked
for before the flags of the command are known: every flag that is not a global switch counts as one
that takes the next argument.
-/

structure UnknownCommand where
  word : Bytes
  parent : Command
  deriving DecidableEq

def UnknownCommand.message (u : UnknownCommand) : String :=
  "unknown command " ++ Text.quote u.word ++ " for \"" ++ u.parent.path ++ "\"" ++
    if u.parent = .root then Suggestion.text u.word else ""

namespace Lookup

def takesNext (known : List Flag) : Bytes → Bool
  | 0x2d :: 0x2d :: name =>
    !name.contains 0x3d && !(Flag.named? known name).any Flag.isSwitch
  | [0x2d, letter] => letter != 0x3d && !(Flag.lettered? known letter).any Flag.isSwitch
  | _ => false

/-- The arguments that can name commands, the first argument being skipped if it is the value of a
flag. Two dashes end the search, and so does a flag whose value would be the last argument. -/
def words (known : List Flag) : (skip : Bool) → List Bytes → List Bytes
  | _, [] => []
  | true, _ :: rest => words known false rest
  | false, argument :: rest =>
    if argument = [0x2d, 0x2d] then []
    else if takesNext known argument then
      if rest.length ≤ 1 then [] else words known true rest
    else if argument.isEmpty || argument.head? == some 0x2d then words known false rest
    else argument :: words known false rest

/-- The command that the arguments name, and its own arguments: all but the first that is equal to
the name. -/
def find (arguments : List Bytes) : Except UnknownCommand (Command × List Bytes) :=
  match words Command.globalFlags false arguments with
  | [] => .ok (.root, arguments)
  | word :: _ =>
    match Command.named? word with
    | some c => .ok (c, arguments.erase word)
    | none => .error ⟨word, .root⟩

end Lookup

end ScalableVector
