import Walkthrough.Export
import Walkthrough.Files.Path

/-!
# Command-line arguments

A subcommand with its options.  The value of an option is the next argument, or it is
part of the same argument: `-l java`, `-ljava`, `-l=java`, `--language java` and
`--language=java` say the same.  A value that is an argument of its own does not start
with a dash, unless it is a dash alone.
-/

namespace Walkthrough.CommandLine

inductive Flag where
  | input
  | folder
  | language
  | format
  | output
  | logLevel
  deriving DecidableEq

namespace Flag

def letter? : Flag → Option Char
  | .input => some 'i'
  | .folder => some 'd'
  | .language => some 'l'
  | .format => some 'f'
  | .output => some 'o'
  | .logLevel => none

def word : Flag → Text
  | .input => "input".toList
  | .folder => "folder".toList
  | .language => "language".toList
  | .format => "format".toList
  | .output => "output".toList
  | .logLevel => "log-level".toList

/-- Whether a value is one that the option takes. -/
def accepts (flag : Flag) (value : Text) : Bool :=
  match flag with
  | .input | .folder => !value.isEmpty
  | .language => (Language.ofId? value).isSome
  | .format => (Export.Format.ofName? value).isSome
  | .output | .logLevel => true

end Flag

inductive Subcommand where
  | visualize
  | execute
  | sample
  deriving DecidableEq

namespace Subcommand

def all : List Subcommand := [.visualize, .execute, .sample]

def name : Subcommand → Text
  | .visualize => "visualize".toList
  | .execute => "execute".toList
  | .sample => "sample".toList

def flags : Subcommand → List Flag
  | .visualize => [.input, .folder, .language, .format, .output, .logLevel]
  | .execute => [.input, .language, .logLevel]
  | .sample => [.language, .logLevel]

/-- The options that may come several times. -/
def repeatable : Subcommand → List Flag
  | .visualize => [.input, .folder]
  | .execute | .sample => []

def required : Subcommand → List Flag
  | .visualize => []
  | .execute => [.input]
  | .sample => [.language]

def ofName? (t : Text) : Option Subcommand := all.find? fun subcommand => subcommand.name = t

end Subcommand

/-- An option with its value, if the argument has one. -/
abbrev Occurrence := Flag × Option Text

def readWord? (flags : List Flag) (t : Text) : Option Occurrence :=
  match Text.cut? ['='] t with
  | some (word, value) =>
    (flags.find? fun flag => flag.word = word).map fun flag => (flag, some value)
  | none => (flags.find? fun flag => flag.word = t).map fun flag => (flag, none)

def attachedValue : Text → Option Text
  | [] => none
  | '=' :: value => some value
  | value => some value

/-- The option that an argument starts, if it is one of the given ones. -/
def readOption? (flags : List Flag) : Text → Option Occurrence
  | '-' :: '-' :: t => readWord? flags t
  | '-' :: letter :: t =>
    (flags.find? fun flag => flag.letter? = some letter).map fun flag => (flag, attachedValue t)
  | _ => none

def startsOption (t : Text) : Bool := t.head? == some '-' && t != ['-']

/-- The options in some arguments, each with its value.  Two dashes end the options, and
nothing may come after them. -/
def readOptions? (flags : List Flag) : List Text → Option (List (Flag × Text))
  | [] => some []
  | argument :: rest =>
    if argument = ['-', '-'] then if rest.isEmpty then some [] else none
    else
      match readOption? flags argument, rest with
      | some (flag, some value), rest =>
        (readOptions? flags rest).map ((flag, value) :: ·)
      | some (flag, none), value :: rest =>
        if startsOption value then none
        else (readOptions? flags rest).map ((flag, value) :: ·)
      | _, _ => none

/-- The subcommand, with the options before it and the arguments after it. -/
def splitAtSubcommand? : List Text → Option (List Text × Subcommand × List Text)
  | [] => none
  | argument :: rest =>
    match Subcommand.ofName? argument, readOption? [.logLevel] argument, rest with
    | some subcommand, _, rest => some ([], subcommand, rest)
    | none, some (_, some _), rest =>
      (splitAtSubcommand? rest).map fun (before, found) => (argument :: before, found)
    | none, some (_, none), value :: rest =>
      (splitAtSubcommand? rest).map fun (before, found) => (argument :: value :: before, found)
    | _, _, _ => none

def valuesOf (flag : Flag) (options : List (Flag × Text)) : List Text :=
  (options.filter fun option => option.1 = flag).map Prod.snd

def pathsOf (flag : Flag) (options : List (Flag × Text)) : List Path :=
  (valuesOf flag options).map Text.toUtf8

def isValid (subcommand : Subcommand) (options : List (Flag × Text)) : Bool :=
  options.all (fun (flag, value) => flag.accepts value) &&
    subcommand.required.all (fun flag => !(valuesOf flag options).isEmpty) &&
    subcommand.flags.all fun flag =>
      subcommand.repeatable.contains flag || (valuesOf flag options).length ≤ 1

/-- What the arguments ask for. -/
inductive Task where
  | visualize (inputs folders : List Path) (language : Option Language) (format : Export.Format)
    (output : Option Path)
  | execute (input : Path) (language : Option Language)
  | sample (language : Language)

def languageOf (options : List (Flag × Text)) : Option Language :=
  (valuesOf .language options).head?.bind Language.ofId?

def formatOf (options : List (Flag × Text)) : Export.Format :=
  ((valuesOf .format options).head?.bind Export.Format.ofName?).getD .text

def Task.ofOptions? (subcommand : Subcommand) (options : List (Flag × Text)) : Option Task :=
  match subcommand with
  | .visualize =>
    some (.visualize (pathsOf .input options) (pathsOf .folder options) (languageOf options)
      (formatOf options) (pathsOf .output options).head?)
  | .execute =>
    (pathsOf .input options).head?.map fun input => .execute input (languageOf options)
  | .sample => (languageOf options).map .sample

/-- The task of an argument list; nothing if the arguments are not in order. -/
def readArguments? (arguments : List Text) : Option Task := do
  let (before, subcommand, after) ← splitAtSubcommand? arguments
  let global ← readOptions? [.logLevel] before
  let options ← readOptions? subcommand.flags after
  guard (global.length ≤ 1 && isValid subcommand options)
  Task.ofOptions? subcommand options

end Walkthrough.CommandLine
