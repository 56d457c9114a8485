import ScalableVector.Command.Basic
import ScalableVector.Command.Help
import ScalableVector.Feature

/-!
# Tasks

What the arguments and the settings of the environment ask the program to do. This is decided before
any input is read.
-/

namespace ScalableVector

/-!
## Version

The version that the program reports: the one it was released with, else the one it was built from,
else a fixed word.
-/

namespace Version

def unreleased : String := "dev"

def isMissing (version : String) : Bool := version = "" || version = "(devel)"

/-- The version to report, given the one of the release and the one of the build. -/
def resolve (released built : String) : String :=
  if released ≠ "" then released
  else if isMissing built then unreleased
  else built

def current : String := resolve "" ""

end Version

/-! ## Tasks -/

structure Environment where
  features : Option Bytes
  verbose : Option Bytes

inductive UsageError
  | command (unknown : UnknownCommand)
  | flag (error : FlagError)
  | feature (name : Bytes)
  deriving DecidableEq

def UsageError.message : UsageError → String
  | command unknown => unknown.message
  | flag error => error.message
  | feature name => FeatureSet.unknownMessage name

/-- An order to encode: the extensions to allow, whether to log words, the file to write unless its
name is empty, and the names of the inputs. -/
structure EncodeOrder where
  features : FeatureSet
  verbose : Bool
  output : Bytes
  inputs : List Bytes

inductive Task
  | print (text : String)
  | encode (order : EncodeOrder)

def standardInputName : Bytes := [0x2d]

namespace Environment

/-- Words that switch a setting on in lower case, in upper case and capitalised. -/
def affirmations : List String :=
  ["absolutely", "affirmative", "enable", "enabled", "positive", "true", "yes"]

def affirmativeTexts : List String :=
  ["1", "t", "T", "y", "Y"] ++
    affirmations.flatMap fun w => [w, w.map Char.toUpper, w.capitalize]

def isVerbose (e : Environment) : Bool :=
  affirmativeTexts.any fun t => some (Bytes.ofString t) = e.verbose

/-- The extensions to allow: those of the flag, or else those of the environment. -/
def enabled (e : Environment) (settings : Settings) : Except Bytes FeatureSet :=
  match settings.features with
  | some list => FeatureSet.parse list
  | none => FeatureSet.ofSetting e.features

end Environment

namespace Task

/-- To encode the named inputs, or standard input if there are none. -/
def encoding (e : Environment) (settings : Settings) (names : List Bytes) :
    Except UsageError Task :=
  match e.enabled settings with
  | .error name => .error (.feature name)
  | .ok features =>
    let inputs := if names.isEmpty then [standardInputName] else names
    .ok (.encode ⟨features, settings.verbose, settings.output, inputs⟩)

def helping (e : Environment) (topic : List Bytes) : Task :=
  match Lookup.find topic with
  | .ok (c, _) => .print (Help.text c e.isVerbose)
  | .error _ => .print (Help.unknownTopic topic e.isVerbose)

def versioning : (words : List Bytes) → Except UsageError Task
  | [] => .ok (.print (Version.current ++ "\n"))
  | word :: _ => .error (.command ⟨word, .version⟩)

def ofCommand (e : Environment) (c : Command) (settings : Settings) (words : List Bytes) :
    Except UsageError Task :=
  if settings.help then .ok (.print (Help.text c e.isVerbose))
  else
    match c with
    | .root | .completion => .ok (.print (Help.text c e.isVerbose))
    | .encode => encoding e settings words
    | .help => .ok (helping e words)
    | .version => versioning words

def ofArguments (e : Environment) (arguments : List Bytes) : Except UsageError Task :=
  match Lookup.find arguments with
  | .error unknown => .error (.command unknown)
  | .ok (c, arguments) =>
    match Arguments.read c.flags none (Settings.initial e.isVerbose) arguments with
    | .error error => .error (.flag error)
    | .ok (settings, words) => ofCommand e c settings words

def inputs : Task → List Bytes
  | print _ => []
  | encode order => order.inputs

end Task

end ScalableVector
