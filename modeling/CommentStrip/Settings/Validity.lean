import CommentStrip.Pattern.Compile
import CommentStrip.Settings.Basic

/-! Which settings a run accepts. All problems are found before any is reported. -/
namespace CommentStrip
open Unicode Text

namespace Settings

inductive Problem where
  | badPatterns (bad : Pattern.BadPatterns)
  | emptyExclude (number : Nat)
  | zeroTimeout
  | emptyBinary
  deriving DecidableEq, Repr

def Problem.message : Problem → String
  | .badPatterns bad => bad.message
  | .emptyExclude number => "Exclude pattern #" ++ toString number ++ " is empty."
  | .zeroTimeout => "\x60php.timeout_ms\x60 must be greater than zero."
  | .emptyBinary => "\x60php.binary\x60 must not be empty."

def isBlankText (s : String) : Bool := s.toList.all isWhite

def patternProblems [Pattern.Dialect] (option : String) (sources : List String) : List Problem :=
  match Pattern.compile option sources with
  | .ok _ => []
  | .error bad => [.badPatterns bad]

def emptyExcludes (number : Nat) : List String → List Problem
  | [] => []
  | glob :: rest =>
    let later := emptyExcludes (number + 1) rest
    if isBlankText glob then .emptyExclude number :: later else later

def problems [Pattern.Dialect] (s : Settings) : List Problem :=
  patternProblems "keep-directive" s.keep ++ patternProblems "exclude-regex" s.excludeRegexes ++
    emptyExcludes 1 s.excludes ++
    (if s.php.timeout = some 0 then [.zeroTimeout] else []) ++
    (if s.php.binary.any isBlankText then [.emptyBinary] else [])

def isValid [Pattern.Dialect] (s : Settings) : Bool := s.problems.isEmpty

def invalidMessage (problems : List Problem) : String :=
  "Configuration validation failed:\n" ++
    String.intercalate "\n" (problems.map Problem.message)

end Settings
end CommentStrip
