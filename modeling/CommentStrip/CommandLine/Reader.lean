import CommentStrip.CommandLine.Invocation
import CommentStrip.CommandLine.Options

/-! Command lines are read from left to right, and the first fault ends the reading. The value of
an option is looked at when the next option or target comes, or in the end. -/
namespace CommentStrip.CommandLine
open Text

inductive UsageError where
  | nothingGiven
  | helpWanted
  | versionWanted
  | missingCommand
  | unknownCommand
  | unknownArgument
  | missingArgument
  | emptyValue
  | badNumber
  | repeated
  | unwantedValue
  deriving DecidableEq, Repr

structure Given where
  name : Name
  value : List Char
  deriving DecidableEq, Repr

structure State where
  given : List Given
  /-- The option or target whose value has not been looked at, with the value if it has come. -/
  pending : Option (Name × Option (List Char))
  onlyTargets : Bool
  targetSeen : Bool
  deriving DecidableEq, Repr

def State.start : State := ⟨[], none, false, false⟩

def has (given : List Given) (name : Name) : Bool := given.any fun g => g.name == name

def values (given : List Given) (name : Name) : List (List Char) :=
  (given.filter fun g => g.name == name).map Given.value

def checkValue (kind : Kind) (value : List Char) : Except UsageError Unit :=
  match kind with
  | .path => if value.isEmpty then .error .emptyValue else .ok ()
  | .count => if (count? value).isNone then .error .badNumber else .ok ()
  | .integer => if (integer? value).isNone then .error .badNumber else .ok ()
  | .switch | .text => .ok ()

def record (given : List Given) (name : Name) (value : List Char) :
    Except UsageError (List Given) :=
  if !name.repeats && has given name then .error .repeated
  else (checkValue name.kind value).map fun _ => given ++ [⟨name, value⟩]

def settle (st : State) : Except UsageError State :=
  match st.pending with
  | none => .ok st
  | some (_, none) => .error .emptyValue
  | some (name, some value) =>
    (record st.given name value).map fun given => { st with given := given, pending := none }

def giveSwitch (name : Name) (st : State) : Except UsageError State := do
  let st ← settle st
  match name with
  | .help => throw .helpWanted
  | .version => throw .versionWanted
  | _ => return { st with given := ← record st.given name [] }

def giveValue (name : Name) (value : List Char) (st : State) : Except UsageError State := do
  let st ← settle st
  return { st with given := ← record st.given name value }

def awaitValue (name : Name) (st : State) : Except UsageError State := do
  let st ← settle st
  return { st with pending := some (name, none) }

def readLong (level : Level) (text : List Char) (st : State) : Except UsageError State :=
  let name := text.takeWhile (· != '=')
  let attached := (text.drop name.length).head?.map fun _ => text.drop (name.length + 1)
  match level.long? name, attached with
  | none, _ => .error .unknownArgument
  | some name, none => if name.kind = .switch then giveSwitch name st else awaitValue name st
  | some name, some value =>
    if name.kind = .switch then .error .unwantedValue else giveValue name value st

def readShort (level : Level) : List Char → State → Except UsageError State
  | [], st => .ok st
  | c :: rest, st =>
    match level.shortName? c with
    | none => .error .unknownArgument
    | some name =>
      if name.kind = .switch then do readShort level rest (← giveSwitch name st)
      else match rest with
        | [] => awaitValue name st
        | '=' :: value => giveValue name value st
        | value => giveValue name value st

def readTarget (level : Level) (text : List Char) (st : State) : Except UsageError State :=
  if !level.takesTarget || st.targetSeen then .error .unknownArgument
  else do
    let st ← settle st
    return { st with pending := some (.target, some text), targetSeen := true }

/- Only the option for blank lines takes a number below zero as its value. -/
def takesNegative (st : State) (text : List Char) : Bool :=
  st.pending == some (.collapse, none) && isNumeric text

def takeValue (level : Level) (text : List Char) (st : State) : Except UsageError State :=
  match st.pending with
  | some (name, none) => .ok { st with pending := some (name, some text) }
  | _ => readTarget level text st

def readArgument (level : Level) (text : List Char) (st : State) : Except UsageError State :=
  if st.onlyTargets then readTarget level text st
  else match text with
    | ['-', '-'] => .ok { st with onlyTargets := true }
    | '-' :: '-' :: rest => readLong level rest st
    | ['-'] => takeValue level text st
    | '-' :: rest =>
      if takesNegative st rest then takeValue level text st else readShort level rest st
    | _ => takeValue level text st

def readAll (level : Level) : List (List Char) → State → Except UsageError State
  | [], st => settle st
  | text :: rest, st => do readAll level rest (← readArgument level text st)

def checkRequired (level : Level) (given : List Given) : Except UsageError Unit :=
  if level.required.all fun name => has given name then .ok () else .error .missingArgument

def strings (given : List Given) (name : Name) : List String :=
  (values given name).map String.ofList

def text? (given : List Given) (name : Name) : Option (List Char) := (values given name).head?

def engineFlags (given : List Given) : EngineFlags :=
  ⟨text? given .config, strings given .keepDirective, has given .noPhp,
    (text? given .phpBinary).map String.ofList, (text? given .phpTimeout).bind count?⟩

def excludeFlags (given : List Given) : ExcludeFlags :=
  ⟨strings given .exclude, strings given .excludeRegex, (text? given .jobs).bind count?⟩

def whitespaceFlags (given : List Given) : WhitespaceFlags :=
  ⟨(text? given .collapse).bind integer?, has given .noWhitespace⟩

def commandOf (given : List Given) : Level → Option Command
  | .strip => some (.strip ⟨(text? given .target).getD [], has given .dryRun, has given .diff,
      engineFlags given, excludeFlags given, whitespaceFlags given⟩)
  | .scan => some (.scan ⟨(text? given .target).getD [], has given .jsonStdout,
      (text? given .threshold).bind count?, engineFlags given, excludeFlags given⟩)
  | .filter => some (.filter ⟨(text? given .extension).getD [], engineFlags given,
      whitespaceFlags given⟩)
  | .top => none

def verbosityOf (given : List Given) : Verbosity :=
  ⟨has given .quiet, has given .debug, has given .disableDebug⟩

/- The flags before the command count as if they came behind it. -/
def readCommand (level : Level) (before : List Given) (arguments : List (List Char)) :
    Except UsageError Invocation := do
  let st ← readAll level arguments .start
  checkRequired level st.given
  match commandOf st.given level with
  | some command => return ⟨verbosityOf (before ++ st.given), command⟩
  | none => throw .missingCommand

def readHelp : List (List Char) → UsageError
  | [] => .helpWanted
  | [name] =>
    if (Level.ofCommand? name).isSome || name == "help".toList then .helpWanted
    else .unknownCommand
  | _ => .unknownCommand

/- A word that is no option has to be a command. Behind two dashes there is none. -/
def readTop : List (List Char) → State → Except UsageError Invocation
  | [], st => .error (if st.given.isEmpty then .nothingGiven else .missingCommand)
  | text :: rest, st =>
    match Level.ofCommand? text with
    | some level =>
      if st.onlyTargets then .error .unknownArgument else readCommand level st.given rest
    | none =>
      if text = "help".toList then
        .error (if st.onlyTargets then .unknownArgument else readHelp rest)
      else if st.onlyTargets || !startsWith ['-'] text || text == ['-'] then
        .error .unknownCommand
      else do readTop rest (← readArgument .top text st)

def read (arguments : List (List Char)) : Except UsageError Invocation :=
  readTop arguments .start

end CommentStrip.CommandLine
