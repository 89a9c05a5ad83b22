import WasmHost.Text.Integer

/-!
# The words of the command line

A command line names one of two commands. `run` takes a module, three options before or after it,
and words for the invoked function; once the first of those is met, all that follows is passed on as
it is. `inspect` takes a module only. Two dashes by themselves end the options.

An option whose value is the next word, and a module, are *pending* until the next word that has a
place of its own; only then are they looked at. This decides which of two mistakes is reported.
-/

namespace WasmHost.CommandLine

/-- The options of `run`. -/
inductive OptionName where
  | config
  | invoke
  | fuel
  deriving DecidableEq, Repr

namespace OptionName

/-- Every option. -/
def all : List OptionName := [config, invoke, fuel]

/-- The word for an option, without its dashes. -/
def word : OptionName → String
  | config => "config"
  | invoke => "invoke"
  | fuel => "fuel"

/-- How a message refers to an option. -/
def label (o : OptionName) : String := "--" ++ o.word ++ " <" ++ o.word.toUpper ++ ">"

end OptionName

/-- What `run` is asked to do. -/
structure RunOptions where
  module : String
  config : Option String
  invoke : Option String
  fuel : Option UInt64
  args : List String
  deriving DecidableEq, Repr

/-- A command. -/
inductive Command where
  | run (options : RunOptions)
  | inspect (module : String)
  deriving DecidableEq, Repr

/-- What there is help about. -/
inductive Topic where
  | program
  | run
  | inspect
  | help
  deriving DecidableEq, Repr

namespace Topic

/-- The commands there is help about. -/
def commands : List Topic := [run, inspect, help]

/-- The word for a command. -/
def word : Topic → String
  | program => "wasmbridge"
  | run => "run"
  | inspect => "inspect"
  | help => "help"

/-- The command a word stands for. -/
def ofWord? (w : String) : Option Topic := commands.find? fun t => t.word == w

end Topic

/-- What is wrong with a command line. -/
inductive Misuse where
  | unknownCommand (word : String)
  | unexpected (word : String)
  | unexpectedValue (value option : String)
  | missingModule
  | missingValue (label : String)
  | badValue (value label reason : String)
  | repeated (label : String)
  deriving DecidableEq, Repr

/-- The wording of a mistake. -/
def Misuse.message : Misuse → String
  | unknownCommand w => "unrecognized subcommand '" ++ w ++ "'"
  | unexpected w => "unexpected argument '" ++ w ++ "' found"
  | unexpectedValue v o =>
    "unexpected value '" ++ v ++ "' for '" ++ o ++ "' found; no more were expected"
  | missingModule => "the following required arguments were not provided:\n  <MODULE>"
  | missingValue l => "a value is required for '" ++ l ++ "' but none was supplied"
  | badValue v l r => "invalid value '" ++ v ++ "' for '" ++ l ++ "': " ++ r
  | repeated l => "the argument '" ++ l ++ "' cannot be used multiple times"

/-- What a command line comes to. -/
inductive Request where
  | perform (c : Command)
  | help (t : Topic)
  | version
  /-- There is no command at all. -/
  | nothing
  | misuse (m : Misuse)
  deriving DecidableEq, Repr

/-! ## The forms of words -/

/-- A word with two dashes: the name after them, and the value behind an equals sign. -/
def longForm? (word : String) : Option (String × Option String) :=
  match word.toList with
  | '-' :: '-' :: c :: cs =>
    let name := (c :: cs).takeWhile (· != '=')
    match (c :: cs).dropWhile (· != '=') with
    | _ :: value => some (String.ofList name, some (String.ofList value))
    | [] => some (String.ofList name, none)
  | _ => none

/-- A word with one dash: the letters after it. -/
def shortForm? (word : String) : Option (List Char) :=
  match word.toList with
  | '-' :: c :: cs => if c = '-' then none else some (c :: cs)
  | _ => none

/-! ## Commands -/

/-- What has been read but not yet looked at. -/
inductive Pending where
  | option (o : OptionName) (value : Option String)
  | module (path : String)
  deriving DecidableEq, Repr

/-- How far the words of a command have been read. -/
structure Progress where
  topic : Topic
  pending : Option Pending
  module : Option String
  config : Option String
  invoke : Option String
  fuel : Option UInt64
  args : List String

namespace Progress

/-- Nothing has been read. -/
def start (topic : Topic) : Progress := ⟨topic, none, none, none, none, none, []⟩

/-- How a message refers to the module. -/
def moduleLabel : String := "<MODULE>"

/-- Gives an option its value. -/
def set (p : Progress) (o : OptionName) (value : String) : Except Misuse Progress :=
  match o with
  | .config =>
    if p.config.isSome then .error (.repeated o.label)
    else if value.isEmpty then .error (.missingValue o.label)
    else .ok { p with config := some value }
  | .invoke =>
    if p.invoke.isSome then .error (.repeated o.label) else .ok { p with invoke := some value }
  | .fuel =>
    if p.fuel.isSome then .error (.repeated o.label)
    else
      match Text.parseUnsigned64 value with
      | .ok n => .ok { p with fuel := some n }
      | .error e => .error (.badValue value o.label e.message)

/-- Looks at what is pending. -/
def settle (p : Progress) : Except Misuse Progress :=
  let settled := { p with pending := none }
  match p.pending with
  | none => .ok p
  | some (.option o none) => .error (.missingValue o.label)
  | some (.option o (some value)) => settled.set o value
  | some (.module path) =>
    if path.isEmpty then .error (.missingValue moduleLabel)
    else .ok { settled with module := some path }

/-- The module has been met. -/
def pastModule (p : Progress) : Bool :=
  p.module.isSome ||
    match p.pending with
    | some (.module _) => true
    | _ => false

/-- Words that look like options may be meant for the invoked function. -/
def takesAnyWord (p : Progress) : Bool := p.topic == .run && p.pastModule

/-- The option that a name stands for in this command. -/
def option? (p : Progress) (name : String) : Option OptionName :=
  if p.topic = .run then OptionName.all.find? fun o => o.word == name else none

/-- Words that are no options: the module, and behind it those for the invoked function. -/
def positional (p : Progress) (word : String) : Except Misuse Progress := do
  if p.pastModule then
    if p.topic = .run then
      let p ← p.settle
      return { p with args := p.args ++ [word] }
    else throw (.unexpected word)
  else
    let p ← p.settle
    return { p with pending := some (.module word) }

end Progress

/-- Reading a command ends in a request, or with what has been read. -/
abbrev Reading : Type := Except Request Progress

/-- A mistake ends the reading. -/
def orMisuse {α : Type} : Except Misuse α → Except Request α
  | .ok a => .ok a
  | .error m => .error (.misuse m)

/-- Words that are all taken as they are. -/
def readVerbatim (p : Progress) : List String → Reading
  | [] => .ok p
  | word :: rest => do readVerbatim (← orMisuse (p.positional word)) rest

/-- The help for a command ends the reading, once what is pending has been looked at. -/
def readHelp (p : Progress) : Reading := do
  let p ← orMisuse p.settle
  throw (.help p.topic)

/-- A word that is a value: of the option that waits for one, or one of the command. -/
def readValue (p : Progress) (word : String) : Except Request (Progress × Bool) :=
  match p.pending with
  | some (.option o none) => .ok ({ p with pending := some (.option o (some word)) }, false)
  | _ => do
    let verbatim := p.takesAnyWord
    return (← orMisuse (p.positional word), verbatim)

/-- Reads the words of a command. -/
def readWords (p : Progress) : List String → Reading
  | [] => .ok p
  | word :: rest =>
    let value : Reading := do
      let (p, verbatim) ← readValue p word
      if verbatim then readVerbatim p rest else readWords p rest
    if word = "--" then readVerbatim p rest
    else
      match longForm? word, shortForm? word with
      | some (name, attached), _ =>
        match p.option? name, attached with
        | some o, some v => do readWords (← orMisuse ((← orMisuse p.settle).set o v)) rest
        | some o, none => do
          let p ← orMisuse p.settle
          readWords { p with pending := some (.option o none) } rest
        | none, _ =>
          if name = "help" then
            match attached with
            | some v => throw (.misuse (.unexpectedValue v "--help"))
            | none => readHelp p
          else if p.takesAnyWord then value
          else throw (.misuse (.unexpected ("--" ++ name)))
      | none, some letters =>
        if p.takesAnyWord && letters.any (· != 'h') then value
        else
          match letters with
          | 'h' :: _ => readHelp p
          | c :: _ => throw (.misuse (.unexpected (String.ofList ['-', c])))
          | [] => value
      | none, none => value

/-- The configuration file: the one that is given, or the one the environment names. -/
def Progress.withEnvironment (p : Progress) (env : Option String) : Except Misuse Progress :=
  match p.config, env with
  | none, some path => p.set .config path
  | _, _ => .ok p

/-- The words of `run`. -/
def readRun (env : Option String) (words : List String) : Except Request Command := do
  let p ← readWords (.start .run) words
  let p ← orMisuse (p.settle.bind (·.withEnvironment env))
  match p.module with
  | none => throw (.misuse .missingModule)
  | some module => return .run ⟨module, p.config, p.invoke, p.fuel, p.args⟩

/-- The words of `inspect`. -/
def readInspect (words : List String) : Except Request Command := do
  let p ← readWords (.start .inspect) words
  match (← orMisuse p.settle).module with
  | none => throw (.misuse .missingModule)
  | some module => return .inspect module

/-- The words after `help`: what there is to be help about. -/
def readHelpTopic : List String → Request
  | [] => .help .program
  | word :: rest =>
    match Topic.ofWord? word, rest with
    | none, _ => .misuse (.unknownCommand word)
    | some t, [] => .help t
    | some _, next :: _ => .misuse (.unknownCommand next)

/-- The request of a command. -/
def ofCommand : Except Request Command → Request
  | .ok c => .perform c
  | .error r => r

/-- Reads a command line. The environment may name a configuration file. -/
def read (env : Option String) : List String → Request
  | [] => .nothing
  | word :: rest =>
    match Topic.ofWord? word with
    | some .run => ofCommand (readRun env rest)
    | some .inspect => ofCommand (readInspect rest)
    | some _ => readHelpTopic rest
    | none =>
      if word = "--" then
        match rest with
        | [] => .nothing
        | next :: _ =>
          .misuse (if (Topic.ofWord? next).isSome then .unexpected next else .unknownCommand next)
      else
        match longForm? word, shortForm? word with
        | some ("version", none), _ => .version
        | some ("help", none), _ => .help .program
        | some (name, some value), _ =>
          .misuse (if name = "version" ∨ name = "help" then .unexpectedValue value ("--" ++ name)
            else .unexpected ("--" ++ name))
        | some (name, none), _ => .misuse (.unexpected ("--" ++ name))
        | none, some ('V' :: _) => .version
        | none, some ('h' :: _) => .help .program
        | none, some (c :: _) => .misuse (.unexpected (String.ofList ['-', c]))
        | none, _ => .misuse (.unknownCommand word)

end WasmHost.CommandLine
