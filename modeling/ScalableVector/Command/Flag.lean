import ScalableVector.Number.Integer

/-!
# Flags

Flags may stand anywhere among the arguments, until two dashes end them. A flag has a name and maybe
a letter; letters may be joined. A switch takes a value only after an equals sign, any other flag
takes the text that follows.
-/

namespace ScalableVector

inductive Flag
  | features
  | help
  | output
  | verbose
  deriving DecidableEq, Repr

namespace Flag

def name : Flag → String
  | features => "features"
  | help => "help"
  | output => "output"
  | verbose => "verbose"

def letter? : Flag → Option Char
  | features => none
  | help => some 'h'
  | output => some 'o'
  | verbose => some 'v'

def isSwitch : Flag → Bool
  | help | verbose => true
  | features | output => false

def title (f : Flag) : String :=
  match f.letter? with
  | some c => "-" ++ String.singleton c ++ ", --" ++ f.name
  | none => "--" ++ f.name

def named? (known : List Flag) (name : Bytes) : Option Flag :=
  known.find? fun f => Bytes.ofString f.name = name

def lettered? (known : List Flag) (letter : UInt8) : Option Flag :=
  known.find? fun f => f.letter?.map Char.toNat = some letter.toNat

end Flag

inductive FlagError
  | badForm (argument : Bytes)
  | unknownName (name : Bytes)
  | unknownLetter (letter : UInt8) (cluster : Bytes)
  | missingValue (argument : Bytes)
  | missingLetterValue (letter : UInt8) (cluster : Bytes)
  | invalidValue (value : Bytes) (flag : Flag) (error : Number.Error)
  deriving DecidableEq

namespace FlagError

def quoteByte (letter : UInt8) : String := Text.quoteLetter (Char.ofNat letter.toNat)

def message : FlagError → String
  | badForm argument => "bad flag syntax: " ++ Text.display argument
  | unknownName name => "unknown flag: --" ++ Text.display name
  | unknownLetter letter cluster =>
    "unknown shorthand flag: " ++ quoteByte letter ++ " in -" ++ Text.display cluster
  | missingValue argument => "flag needs an argument: " ++ Text.display argument
  | missingLetterValue letter cluster =>
    "flag needs an argument: " ++ quoteByte letter ++ " in -" ++ Text.display cluster
  | invalidValue value flag error =>
    "invalid argument " ++ Text.quote value ++ " for " ++
      Text.quote (Bytes.ofString flag.title) ++ " flag: " ++ error.message

end FlagError

structure Settings where
  features : Option Bytes
  help : Bool
  output : Bytes
  verbose : Bool
  deriving DecidableEq

namespace Settings

def initial (verbose : Bool) : Settings := ⟨none, false, [], verbose⟩

def set (s : Settings) (f : Flag) (value : Bytes) : Except FlagError Settings :=
  match f with
  | .features => .ok { s with features := some value }
  | .output => .ok { s with output := value }
  | .help =>
    match Number.readTruth value with
    | .ok b => .ok { s with help := b }
    | .error e => .error (.invalidValue value f e)
  | .verbose =>
    match Number.readTruth value with
    | .ok b => .ok { s with verbose := b }
    | .error e => .error (.invalidValue value f e)

end Settings

namespace Arguments

/-- A flag that waits for its value, and the error if there is none. -/
structure Waiting where
  flag : Flag
  missing : FlagError

def switchedOn : Bytes := Bytes.ofString "true"

/-- The clusters that start like this have no meaning. -/
def ignoredCluster : Bytes := Bytes.ofString "test."

def readCluster (known : List Flag) (s : Settings) :
    Bytes → Except FlagError (Settings × Option Waiting)
  | [] => .ok (s, none)
  | letter :: more =>
    if ignoredCluster.isPrefixOf (letter :: more) then .ok (s, none)
    else
      match Flag.lettered? known letter with
      | none => .error (.unknownLetter letter (letter :: more))
      | some f =>
        if 2 ≤ more.length ∧ more.head? = some 0x3d then
          (s.set f more.tail).map fun s => (s, none)
        else if f.isSwitch then
          match s.set f switchedOn with
          | .error e => .error e
          | .ok s => readCluster known s more
        else if more.isEmpty then
          .ok (s, some ⟨f, .missingLetterValue letter [letter]⟩)
        else (s.set f more).map fun s => (s, none)

/-- Reads a flag given by its name, the text being what follows the two dashes. -/
def readNamed (known : List Flag) (s : Settings) (body : Bytes) :
    Except FlagError (Settings × Option Waiting) :=
  let argument := 0x2d :: 0x2d :: body
  if body.isEmpty ∨ body.head? = some 0x2d ∨ body.head? = some 0x3d then
    .error (.badForm argument)
  else
    let name := body.takeWhile (· ≠ 0x3d)
    match Flag.named? known name with
    | none => .error (.unknownName name)
    | some f =>
      match body.dropWhile (· ≠ 0x3d) with
      | _ :: value => (s.set f value).map fun s => (s, none)
      | [] =>
        if f.isSwitch then (s.set f switchedOn).map fun s => (s, none)
        else .ok (s, some ⟨f, .missingValue argument⟩)

def readFlag (known : List Flag) (s : Settings) (argument : Bytes) :
    Except FlagError (Settings × Option Waiting) :=
  match argument.drop 1 with
  | 0x2d :: body => readNamed known s body
  | cluster => readCluster known s cluster

def isPlain (argument : Bytes) : Bool := argument.head? != some 0x2d || argument.length == 1

/-- Reads arguments: the settings, and the arguments that are no flags. -/
def read (known : List Flag) : Option Waiting → Settings → List Bytes →
    Except FlagError (Settings × List Bytes)
  | none, s, [] => .ok (s, [])
  | some w, _, [] => .error w.missing
  | some w, s, value :: rest =>
    match s.set w.flag value with
    | .error e => .error e
    | .ok s => read known none s rest
  | none, s, argument :: rest =>
    if isPlain argument then
      (read known none s rest).map fun r => (r.1, argument :: r.2)
    else if argument = [0x2d, 0x2d] then .ok (s, rest)
    else
      match readFlag known s argument with
      | .error e => .error e
      | .ok (s, waiting) => read known waiting s rest

end Arguments

end ScalableVector
