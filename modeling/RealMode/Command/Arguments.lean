import RealMode.Decimal
import RealMode.Settings

/-!
# Command-line arguments

The arguments are a subcommand and, in any order, its input path and options.
`Arguments.parse` reads them from left to right; none is a usage error.

- A word that starts with `--` is a long option, with its value after `=` or in the next
  word.
- A word that starts with `-` and is longer is a run of short options; the value of one
  that takes a value is the rest of the word, after an optional `=`, or the next word.
- The word `--` ends the options. Any other word is the input path or the value that is
  waited for.
- No option that takes a value may be given twice, and no path may be empty.
-/

namespace RealMode

/-- The subcommands. -/
inductive Subcommand
  | build
  | check
  | symbols
  | data
deriving DecidableEq, Repr

/-- The options that take a value. -/
inductive ValueOption
  | output
  | redeclare
  | maxDepth
deriving DecidableEq, Repr

/-- What has been read of a subcommand's arguments. -/
structure Arguments where
  input : Option String := none
  output : Option String := none
  redeclare : Option Policy := none
  maxDepth : Option Nat := none
deriving DecidableEq, Repr

/-- A complete subcommand. -/
structure Invocation where
  subcommand : Subcommand
  input : String
  output : Option String := none
  redeclare : Option Policy := none
  maxDepth : Option Nat := none
deriving DecidableEq, Repr

/-- What the user asks for. -/
inductive Request
  | version
  | help
  | run (invocation : Invocation)
deriving DecidableEq, Repr

/-- The subcommand with the given name. -/
def Subcommand.ofName? (name : String) : Option Subcommand :=
  if name = "build" then some .build
  else if name = "check" then some .check
  else if name = "symbols" then some .symbols
  else if name = "data" then some .data
  else none

/-- Whether a subcommand takes an option. -/
def Subcommand.takes : Subcommand → ValueOption → Bool
  | .build, _ => true
  | .data, _ => false
  | _, .output => false
  | _, _ => true

/-- The option with the given long name. -/
def ValueOption.ofName? (name : String) : Option ValueOption :=
  if name = "output" then some .output
  else if name = "redeclare" then some .redeclare
  else if name = "max-depth" then some .maxDepth
  else none

/-- The kinds of words. -/
inductive ArgumentWord
  | separator
  | long (name : String) (value : Option String)
  | short (options : List Char)
  | plain (text : String)
deriving DecidableEq, Repr

/-- The kind of a word. -/
def ArgumentWord.ofText (text : String) : ArgumentWord :=
  match text.toList with
  | ['-', '-'] => .separator
  | '-' :: '-' :: rest =>
    match rest.dropWhile (· != '=') with
    | _ :: value =>
      .long (String.ofList (rest.takeWhile (· != '='))) (some (String.ofList value))
    | [] => .long (String.ofList rest) none
  | '-' :: c :: rest => .short (c :: rest)
  | _ => .plain text

namespace Arguments

/-- Takes the input path. -/
def setInput (args : Arguments) (text : String) : Option Arguments :=
  if text = "" || args.input.isSome then none else some { args with input := some text }

/-- Takes the value of an option. -/
def setOption (args : Arguments) (option : ValueOption) (value : String) :
    Option Arguments :=
  match option with
  | .output =>
    if value = "" || args.output.isSome then none
    else some { args with output := some value }
  | .redeclare =>
    if args.redeclare.isSome then none
    else (Policy.ofName? value).map fun policy => { args with redeclare := some policy }
  | .maxDepth =>
    if args.maxDepth.isSome then none
    else (Decimal.natural? value).map fun limit => { args with maxDepth := some limit }

/-- Where reading stands after a word: it asks for help, waits for the value of an option,
or goes on. -/
inductive Progress
  | help
  | waiting (option : ValueOption) (args : Arguments)
  | ready (args : Arguments)

/-- Reads a run of short options. -/
def readShort (sub : Subcommand) (args : Arguments) : List Char → Option Progress
  | [] => some (.ready args)
  | 'v' :: rest => readShort sub args rest
  | 'h' :: _ => some .help
  | 'o' :: rest =>
    if !sub.takes .output then none
    else match rest with
      | [] => some (.waiting .output args)
      | '=' :: value => (args.setOption .output (String.ofList value)).map .ready
      | value => (args.setOption .output (String.ofList value)).map .ready
  | _ => none

/-- Reads a long option. -/
def readLong (sub : Subcommand) (args : Arguments) (name : String)
    (value : Option String) : Option Progress :=
  if name = "verbose" then if value.isNone then some (.ready args) else none
  else if name = "help" then if value.isNone then some .help else none
  else match ValueOption.ofName? name with
    | none => none
    | some option =>
      if !sub.takes option then none
      else match value with
        | some value => (args.setOption option value).map .ready
        | none => some (.waiting option args)

/-- Ends the arguments of a subcommand. -/
def finish (sub : Subcommand) (args : Arguments) : Option Request :=
  args.input.map fun input =>
    .run ⟨sub, input, args.output, args.redeclare, args.maxDepth⟩

/-- Reads words after the separator: all are input paths. -/
def readPlain (sub : Subcommand) (args : Arguments) : List String → Option Request
  | [] => args.finish sub
  | word :: rest => match args.setInput word with
    | some args => readPlain sub args rest
    | none => none

/-- Reads the words after a subcommand. -/
def read (sub : Subcommand) (progress : Progress) : List String → Option Request
  | [] => match progress with
    | .ready args => args.finish sub
    | .help => some .help
    | .waiting .. => none
  | word :: rest => match progress with
    | .help => some .help
    | .waiting option args => match ArgumentWord.ofText word with
      | .plain value => match args.setOption option value with
        | some args => read sub (.ready args) rest
        | none => none
      | _ => none
    | .ready args => match ArgumentWord.ofText word with
      | .separator => readPlain sub args rest
      | .plain text => match args.setInput text with
        | some args => read sub (.ready args) rest
        | none => none
      | .long name value => match readLong sub args name value with
        | some progress => read sub progress rest
        | none => none
      | .short options => match readShort sub args options with
        | some progress => read sub progress rest
        | none => none

/-- Reads short options before the subcommand. The outer option is what they ask for, the
inner none that reading goes on. -/
def readLeadingShort : List Char → Option (Option Request)
  | [] => some none
  | 'v' :: rest => readLeadingShort rest
  | 'V' :: _ => some (some .version)
  | 'h' :: _ => some (some .help)
  | _ => none

/-- Reads the words after `help`: at most the name of a subcommand. -/
def helpRequest : List String → Option Request
  | [] => some .help
  | ["help"] => some .help
  | [name] => (Subcommand.ofName? name).map fun _ => .help
  | _ => none

/-- Reads the arguments of the program. -/
def parse : List String → Option Request
  | [] => none
  | word :: rest => match ArgumentWord.ofText word with
    | .separator => none
    | .long "verbose" none => parse rest
    | .long "version" none => some .version
    | .long "help" none => some .help
    | .long _ _ => none
    | .short options => match readLeadingShort options with
      | some (some request) => some request
      | some none => parse rest
      | none => none
    | .plain "help" => helpRequest rest
    | .plain name => match Subcommand.ofName? name with
      | some sub => read sub (.ready {}) rest
      | none => none

end Arguments

end RealMode
