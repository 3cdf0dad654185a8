import CommentStrip.Text.Basic

/-! The options of the commands, and what their values may be. -/
namespace CommentStrip.CommandLine
open Text

inductive Name where
  | quiet
  | debug
  | disableDebug
  | help
  | version
  | config
  | keepDirective
  | noPhp
  | phpBinary
  | phpTimeout
  | exclude
  | excludeRegex
  | jobs
  | collapse
  | noWhitespace
  | dryRun
  | diff
  | jsonStdout
  | threshold
  | extension
  | target
  deriving DecidableEq, Repr

namespace Name

def long : Name → String
  | quiet => "quiet"
  | debug => "debug"
  | disableDebug => "disable-debug"
  | help => "help"
  | version => "version"
  | config => "config"
  | keepDirective => "keep-directive"
  | noPhp => "no-php"
  | phpBinary => "php-binary"
  | phpTimeout => "php-timeout-ms"
  | exclude => "exclude"
  | excludeRegex => "exclude-regex"
  | jobs => "jobs"
  | collapse => "collapse-blank-lines"
  | noWhitespace => "no-whitespace"
  | dryRun => "dry-run"
  | diff => "diff"
  | jsonStdout => "json-stdout"
  | threshold => "fail-over-threshold"
  | extension => "ext"
  | target => ""

def short? : Name → Option Char
  | quiet => some 'q'
  | debug => some 'd'
  | help => some 'h'
  | version => some 'V'
  | jobs => some 'j'
  | diff => some 'D'
  | _ => none

end Name

inductive Kind where
  | switch
  | text
  | path
  /-- A number in 64 bits. -/
  | count
  /-- A number in 64 bits with a sign. -/
  | integer
  deriving DecidableEq, Repr

def Name.kind : Name → Kind
  | .config | .target => .path
  | .keepDirective | .phpBinary | .exclude | .excludeRegex | .extension => .text
  | .phpTimeout | .jobs | .threshold => .count
  | .collapse => .integer
  | _ => .switch

def Name.repeats (name : Name) : Bool :=
  name == .keepDirective || name == .exclude || name == .excludeRegex

inductive Level where
  | top
  | strip
  | scan
  | filter
  deriving DecidableEq, Repr

def Level.ofCommand? : List Char → Option Level
  | text => match String.ofList text with
    | "strip" => some .strip
    | "scan" => some .scan
    | "filter" => some .filter
    | _ => none

def common : List Name := [.quiet, .debug, .disableDebug, .help]

def engineNames : List Name := [.config, .keepDirective, .noPhp, .phpBinary, .phpTimeout]

def excludeNames : List Name := [.exclude, .excludeRegex, .jobs]

def whitespaceNames : List Name := [.collapse, .noWhitespace]

def Level.names : Level → List Name
  | .top => common ++ [.version]
  | .strip => common ++ [.dryRun, .diff] ++ engineNames ++ excludeNames ++ whitespaceNames
  | .scan => common ++ engineNames ++ excludeNames ++ [.jsonStdout, .threshold]
  | .filter => common ++ [.extension] ++ engineNames ++ whitespaceNames

def Level.takesTarget : Level → Bool
  | .strip | .scan => true
  | .top | .filter => false

def Level.required : Level → List Name
  | .strip | .scan => [.target]
  | .filter => [.extension]
  | .top => []

def Level.long? (level : Level) (text : List Char) : Option Name :=
  level.names.find? fun name => name.long.toList == text

def Level.shortName? (level : Level) (c : Char) : Option Name :=
  level.names.find? fun name => name.short? == some c

def natural? (digits : List Char) : Option Nat :=
  if digits.isEmpty ∨ !digits.all Char.isDigit then none
  else some (digits.foldl (fun n c => n * 10 + (c.toNat - 48)) 0)

def withoutPlus : List Char → List Char
  | '+' :: rest => rest
  | text => text

def count? (text : List Char) : Option Nat := do
  let n ← natural? (withoutPlus text)
  if n < UInt64.size then some n else none

def integer? : List Char → Option Int
  | '-' :: digits => do
    let n ← natural? digits
    if n ≤ UInt64.size / 2 then some (-Int.ofNat n) else none
  | text => do
    let n ← natural? (withoutPlus text)
    if n < UInt64.size / 2 then some (Int.ofNat n) else none

/- Digits, with at most one dot behind the first of them and at most one exponent, which does
not come last; a text that looks like this behind a minus sign is a number. -/
def numericFrom (dot exponent : Bool) : (first : Bool) → List Char → Bool
  | _, [] => true
  | first, c :: rest =>
    if c.isDigit then numericFrom dot exponent false rest
    else if c = '.' ∧ dot = false ∧ exponent = false ∧ first = false then
      numericFrom true exponent false rest
    else if c = 'e' ∧ exponent = false ∧ first = false ∧ rest ≠ [] then
      numericFrom dot true false rest
    else false

def isNumeric (text : List Char) : Bool := numericFrom false false true text

end CommentStrip.CommandLine
