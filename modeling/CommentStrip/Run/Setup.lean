import CommentStrip.CommandLine.Invocation
import CommentStrip.Engine
import CommentStrip.Php.Interpreter
import CommentStrip.Settings.Load
import CommentStrip.Walk

/-! What a run is set up with before it looks at any text, and the reasons for which it does not
begin. -/
namespace CommentStrip.Run
open CommandLine (EngineFlags ExcludeFlags WhitespaceFlags)

inductive Failure where
  | settingsFile (path : List Char) (error : Settings.LoadError)
  | invalidSettings (problems : List Settings.Problem)
  | badExcludes (bad : Pattern.BadPatterns)
  | badKeep (bad : Pattern.BadPatterns)
  | missingTarget (path : List Char)
  | unsupportedExtension (extension : List Char)
  | notText (fault : Text.Utf8.Fault)
  deriving DecidableEq, Repr

def Failure.message : Failure → String
  | .settingsFile path error =>
    "Failed to load configuration from " ++ String.ofList path ++ ": " ++ error.message
  | .invalidSettings problems => Settings.invalidMessage problems
  | .badExcludes bad => bad.message
  | .badKeep bad => "Failed to compile keep directives: " ++ bad.message
  | .missingTarget path => "Invalid target: " ++ String.ofList path
  | .unsupportedExtension extension =>
    "Unsupported file extension: '" ++ String.ofList extension ++ "'"
  | .notText fault => "Input is not valid UTF-8: " ++ fault.message

def baseSettings [Pattern.Dialect] [Settings.Format] (root : FileTree) (engine : EngineFlags) :
    Except Failure Settings :=
  match engine.config with
  | none => .ok .builtIn
  | some path =>
    match Settings.load root path with
    | .ok settings => .ok (Settings.builtIn.merge settings)
    | .error error => .error (.settingsFile path error)

/- The flags come on top; the whole is looked at before it is used. -/
def settings [Pattern.Dialect] [Settings.Format] (root : FileTree) (engine : EngineFlags)
    (exclude : ExcludeFlags) (whitespace : WhitespaceFlags) : Except Failure Settings := do
  let base ← baseSettings root engine
  let merged := base.merge (CommandLine.layer engine exclude whitespace)
  if merged.isValid then return merged else throw (.invalidSettings merged.problems)

def excludeSet [Pattern.Dialect] (s : Settings) : Except Failure ExcludeSet :=
  match ExcludeSet.compile s.excludes s.excludeRegexes with
  | .ok set => .ok set
  | .error bad => .error (.badExcludes bad)

/- The delegate that settings ask for. `find` says what a name of an interpreter stands for. -/
def delegate (find : List Char → Php.Interpreter) (s : Settings) : Php.Delegate :=
  if s.phpEnabled then
    Php.commandLine s.phpBinary s.phpTimeout (find s.phpBinary.toList)
  else Php.noDelegate

def engine [Pattern.Dialect] (find : List Char → Php.Interpreter) (s : Settings) :
    Except Failure Engine :=
  match KeepSet.compile s.keep with
  | .ok keep => .ok ⟨keep, delegate find s⟩
  | .error bad => .error (.badKeep bad)

def interpreterWarning (find : List Char → Php.Interpreter) (s : Settings)
    (requests : List (List Char)) : String :=
  if s.phpEnabled && !requests.isEmpty then
    match find s.phpBinary.toList with
    | .missing => Php.missingWarning s.phpBinary
    | _ => ""
  else ""

def stripText [Pattern.Dialect] (find : List Char → Php.Interpreter) (s : Settings)
    (family : Family) (text : List Char) : Except Failure Outcome := do
  let engine ← engine find s
  let outcome := engine.strip family text
  return { outcome with text := s.policy.apply outcome.text }

def family? (extension : List Char) : Option Family :=
  Family.ofExtension? (String.ofList
    ((extension.dropWhile (· == '.')).map Unicode.asciiLower))

def stripByExtension [Pattern.Dialect] (find : List Char → Php.Interpreter) (s : Settings)
    (extension text : List Char) : Except Failure Outcome :=
  match family? extension with
  | some family => stripText find s family text
  | none => .error (.unsupportedExtension extension)

end CommentStrip.Run
