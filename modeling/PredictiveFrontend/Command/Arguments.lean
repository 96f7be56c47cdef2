/-!
# Command lines

A command line names a command and gives it options and words. Options may stand in front of the
command and behind it; the value of an option may be attached to it or be the next argument, and
flags of one letter may be written together. Behind `--` everything is a word.
-/

namespace PredictiveFrontend

/-- What an option sets. -/
inductive OptionKey where
  | grammar
  | config
  | verbose
  | format
  | all
  deriving DecidableEq, Repr

namespace OptionKey

/-- The word of an option, behind two hyphens. -/
def word : OptionKey → String
  | .grammar => "grammar"
  | .config => "config"
  | .verbose => "verbose"
  | .format => "format"
  | .all => "all"

/-- The letter of an option, behind one hyphen. -/
def letter : OptionKey → Char
  | .grammar => 'g'
  | .config => 'c'
  | .verbose => 'v'
  | .format => 'f'
  | .all => 'a'

/-- Whether an option has a value. -/
def hasValue : OptionKey → Bool
  | .grammar | .config | .format => true
  | .verbose | .all => false

/-- The options of every command. -/
def common : List OptionKey := [.grammar, .config, .verbose]

end OptionKey

/-- An option that was given, with its value; a flag has none. -/
structure GivenOption where
  key : OptionKey
  value : String
  deriving DecidableEq, Repr

namespace Arguments

/-- What arguments amount to. -/
structure Reading where
  options : List GivenOption
  words : List String
  deriving DecidableEq, Repr

namespace Reading

/-- The reading with one more option in front. -/
def give (r : Reading) (key : OptionKey) (value : String) : Reading :=
  { r with options := ⟨key, value⟩ :: r.options }

/-- The reading with more options in front. -/
def giveAll (r : Reading) (options : List GivenOption) : Reading :=
  { r with options := options ++ r.options }

/-- The value given to an option. -/
def value? (r : Reading) (key : OptionKey) : Option String :=
  (r.options.find? (·.key == key)).map (·.value)

end Reading

/-- Whether an argument is an option or the mark in front of words; a single hyphen is a word. -/
def isOption (arg : String) : Bool :=
  match arg.toList with
  | '-' :: _ :: _ => true
  | _ => false

/-- Letters behind one hyphen: the options among them that are complete, and a last one that waits
for its value. -/
def letters (known : List OptionKey) :
    List Char → Option (List GivenOption × Option OptionKey)
  | [] => some ([], none)
  | c :: rest =>
    match known.find? (·.letter == c) with
    | none => none
    | some key =>
      if key.hasValue then
        match rest with
        | [] => some ([], some key)
        | '=' :: value => some ([⟨key, String.ofList value⟩], none)
        | value => some ([⟨key, String.ofList value⟩], none)
      else (letters known rest).map fun (given, last) => (⟨key, ""⟩ :: given, last)

/-- A word behind two hyphens: an option, complete or waiting for its value. -/
def longOption (known : List OptionKey) (text : List Char) :
    Option (List GivenOption × Option OptionKey) :=
  let name := text.takeWhile (· ≠ '=')
  match known.find? (·.word.toList == name), text.dropWhile (· ≠ '=') with
  | none, _ => none
  | some key, [] => some (if key.hasValue then ([], some key) else ([⟨key, ""⟩], none))
  | some key, _ :: value =>
    if key.hasValue then some ([⟨key, String.ofList value⟩], none) else none

/-- An argument that is an option: what it gives, and what waits for a value. -/
def optionOf (known : List OptionKey) (arg : String) :
    Option (List GivenOption × Option OptionKey) :=
  match arg.toList with
  | '-' :: '-' :: text => longOption known text
  | '-' :: text => letters known text
  | _ => none

/-- Read arguments. In front of the command the first word ends the options, and all else is left to
the command. -/
def read (known : List OptionKey) (frontOfCommand : Bool) : List String → Option Reading
  | [] => some ⟨[], []⟩
  | arg :: rest =>
    if arg = "--" then if frontOfCommand then none else some ⟨[], rest⟩
    else if isOption arg then
      match optionOf known arg with
      | none => none
      | some (given, none) => (read known frontOfCommand rest).map (·.giveAll given)
      | some (given, some key) =>
        match rest with
        | [] => none
        | value :: rest =>
          if isOption value then none
          else (read known frontOfCommand rest).map fun r => (r.give key value).giveAll given
    else if frontOfCommand then some ⟨[], arg :: rest⟩
    else (read known frontOfCommand rest).map fun r => { r with words := arg :: r.words }

/-- Read arguments in which no option is given twice. -/
def readOnce (known : List OptionKey) (frontOfCommand : Bool) (args : List String) :
    Option Reading :=
  (read known frontOfCommand args).filter fun r => (r.options.map (·.key)).Nodup

end Arguments

/-- What is to be done. -/
inductive Command where
  /-- Write a report on a file; without a name the one in the settings. -/
  | execute (path : String) (reportName : Option String)
  /-- Write the tokens of a file, with the auxiliary ones if wanted. -/
  | tokens (path : String) (all : Bool)
  /-- Write the derivation of a file. -/
  | parse (path : String)
  /-- List the names of all reports. -/
  | listReports
  deriving DecidableEq, Repr

/-- A command with the options that every command has. -/
structure CommandLine where
  command : Command
  grammarPath : Option String
  settingsPath : Option String
  deriving DecidableEq, Repr

namespace CommandLine

open Arguments

/-- The options of a command besides the common ones. -/
def ownOptions : String → Option (List OptionKey)
  | "execute" => some [.format]
  | "tokens" => some [.all]
  | "parse" => some []
  | "list-formats" => some []
  | _ => none

/-- The command of a name and what was read behind it. -/
def commandOf (name : String) (r : Reading) : Option Command :=
  match name, r.words with
  | "execute", [path] => some (.execute path (r.value? .format))
  | "tokens", [path] => some (.tokens path (r.value? .all).isSome)
  | "parse", [path] => some (.parse path)
  | "list-formats", [] => some .listReports
  | _, _ => none

/-- Read a command line. Of two values for a common option the one behind the command counts. -/
def ofArguments (args : List String) : Option CommandLine := do
  let front ← readOnce OptionKey.common true args
  match front.words with
  | [] => none
  | name :: rest =>
    let own ← ownOptions name
    let behind ← readOnce (OptionKey.common ++ own) false rest
    let command ← commandOf name behind
    return ⟨command, (behind.value? .grammar).or (front.value? .grammar),
      (behind.value? .config).or (front.value? .config)⟩

end CommandLine

end PredictiveFrontend
