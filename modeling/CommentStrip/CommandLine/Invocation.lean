import CommentStrip.Settings.Basic

/-! What a command line asks for. -/
namespace CommentStrip.CommandLine

structure EngineFlags where
  config : Option (List Char)
  keep : List String
  noPhp : Bool
  phpBinary : Option String
  phpTimeout : Option Nat
  deriving DecidableEq, Repr

structure ExcludeFlags where
  excludes : List String
  excludeRegexes : List String
  /-- How many files may be worked on at a time. It changes no answer. -/
  jobs : Option Nat
  deriving DecidableEq, Repr

structure WhitespaceFlags where
  collapse : Option Int
  off : Bool
  deriving DecidableEq, Repr

structure Strip where
  target : List Char
  dryRun : Bool
  diff : Bool
  engine : EngineFlags
  exclude : ExcludeFlags
  whitespace : WhitespaceFlags
  deriving DecidableEq, Repr

structure Scan where
  target : List Char
  json : Bool
  threshold : Option Nat
  engine : EngineFlags
  exclude : ExcludeFlags
  deriving DecidableEq, Repr

structure Filter where
  extension : List Char
  engine : EngineFlags
  whitespace : WhitespaceFlags
  deriving DecidableEq, Repr

inductive Command where
  | strip (options : Strip)
  | scan (options : Scan)
  | filter (options : Filter)
  deriving DecidableEq, Repr

structure Verbosity where
  quiet : Bool
  debug : Bool
  disableDebug : Bool
  deriving DecidableEq, Repr

inductive LogLevel where
  | off
  | info
  | debug
  deriving DecidableEq, Repr

def Verbosity.forced (v : Verbosity) : Option LogLevel :=
  if v.quiet then some .off
  else if v.disableDebug then some .info
  else if v.debug then some .debug
  else none

structure Invocation where
  verbosity : Verbosity
  command : Command
  deriving DecidableEq, Repr

def layer (engine : EngineFlags) (exclude : ExcludeFlags) (whitespace : WhitespaceFlags) :
    Settings where
  keep := engine.keep
  excludes := exclude.excludes
  excludeRegexes := exclude.excludeRegexes
  whitespace := ⟨if whitespace.off then some false else none, whitespace.collapse⟩
  php := ⟨if engine.noPhp then some false else none, engine.phpBinary, engine.phpTimeout⟩

def ExcludeFlags.none : ExcludeFlags := ⟨[], [], Option.none⟩

def WhitespaceFlags.none : WhitespaceFlags := ⟨Option.none, false⟩

end CommentStrip.CommandLine
