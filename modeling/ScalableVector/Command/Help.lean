import ScalableVector.Command.Basic

/-!
# Help

The help of a command: what it does, how it is called, and its flags in two aligned columns.
-/

namespace ScalableVector.Help

def summary : Command → String
  | .root => "ARM SVE and SVE2 instruction encoder"
  | .completion => "Generate the autocompletion script for the specified shell"
  | .encode => "Encode instruction listings"
  | .help => "Help about any command"
  | .version => "Show application version"

def description : Command → String
  | .root => "sveasm encodes listings of SVE and SVE2 instructions into machine words."
  | .completion =>
    "Generate the autocompletion script for sveasm for the specified shell.\n" ++
    "See each sub-command's help for details on how to use the generated script."
  | .encode =>
    "Encode reads listings of emitter calls, one per line, and prints the encoded\n" ++
    "words. Each line holds a method name followed by comma separated operands.\n" ++
    "Blank lines and // comments are ignored. Without files, standard input is read."
  | .help =>
    "Help provides help for any command in the application.\n" ++
    "Simply type sveasm help [path to command] for full details."
  | .version => summary .version

def callLine : Command → String
  | .root => "sveasm [command]"
  | .completion => "sveasm completion [command]"
  | .encode => "sveasm encode [file...] [flags]"
  | .help => "sveasm help [command] [flags]"
  | .version => "sveasm version [flags]"

def examples : Command → Option String
  | .encode => some
    ("  # Encode a single instruction.\n" ++
    "  echo \"Add s, z0, z1, z2\" | sveasm encode\n\n" ++
    "  # Encode a listing into a raw little-endian binary.\n" ++
    "  sveasm encode -o memcpy.bin memcpy.sve")
  | _ => none

def shells : List String := ["bash", "fish", "powershell", "zsh"]

def subcommands : Command → List (String × String)
  | .root => Command.all.map fun c => (c.name, summary c)
  | .completion => shells.map fun s => (s, "Generate the autocompletion script for " ++ s)
  | _ => []

/-- The flags that the help of a command lists as its own, in alphabetical order. -/
def listedFlags (c : Command) (withHelp : Bool) : List Flag :=
  let flags : List Flag :=
    if c = .root then [.features, .help, .verbose] else c.ownFlags
  if withHelp then flags else flags.filter (· ≠ .help)

def flagUsage (c : Command) (verbose : Bool) : Flag → String
  | .features =>
    "comma separated ISA extensions to allow: sve2, bitperm, i8mm, all or none " ++
    "(default $SVEASM_FEATURES, else all)"
  | .help => "help for " ++ c.name
  | .output => "write the raw little-endian words to this file instead of listing them"
  | .verbose => "log every encoded instruction" ++ if verbose then " (default true)" else ""

def padded (width : Nat) (s : String) : String :=
  s ++ String.ofList (List.replicate (width - s.length) ' ')

def flagHead (f : Flag) : String :=
  (match f.letter? with
  | some letter => "  -" ++ String.singleton letter ++ ", --"
  | none => "      --") ++ f.name ++ if f.isSwitch then "" else " string"

def flagLines (c : Command) (verbose : Bool) (flags : List Flag) : String :=
  let width := ((flags.map fun f => (flagHead f).length).foldl max 0) + 3
  String.join (flags.map fun f => padded width (flagHead f) ++ flagUsage c verbose f ++ "\n")

def sectionText (title content : String) : String :=
  if content = "" then "" else "\n" ++ title ++ ":\n" ++ content

def subcommandLines (c : Command) : String :=
  String.join ((subcommands c).map fun s => "  " ++ padded 12 s.1 ++ s.2 ++ "\n")

/-- How a command is used. The flag for help is listed only if it is defined. -/
def usage (c : Command) (verbose withHelp : Bool) : String :=
  "Usage:\n  " ++ callLine c ++ "\n" ++
    sectionText "Examples" (((examples c).map (· ++ "\n")).getD "") ++
    sectionText "Available Commands" (subcommandLines c) ++
    sectionText "Flags" (flagLines c verbose (listedFlags c withHelp)) ++
    (if c = .root then ""
    else sectionText "Global Flags" (flagLines c verbose Command.globalFlags)) ++
    (if (subcommands c).isEmpty then ""
    else "\nUse \"" ++ c.path ++ " [command] --help\" for more information about a command.\n")

def text (c : Command) (verbose : Bool) : String :=
  description c ++ "\n\n" ++ usage c verbose true

def unknownTopic (topic : List Bytes) (verbose : Bool) : String :=
  "Unknown help topic [" ++ " ".intercalate (topic.map Text.quotePlain) ++ "]\n" ++
    usage .root verbose false

end ScalableVector.Help
