import CommentStrip.Text.Lines

/-! Why a pattern cannot be read, where, and how the report shows the place. -/
namespace CommentStrip.Pattern
open Text

structure Span where
  start : Nat
  stop : Nat
  deriving DecidableEq, Repr

inductive Cause where
  | classEscapeInvalid
  | classRangeInvalid
  | classRangeBoundary
  | classUnclosed
  | decimalEmpty
  | decimalInvalid
  | escapeHexEmpty
  | escapeHexInvalid
  | escapeHexDigit
  | escapeEnd
  | escapeUnrecognized
  | flagDanglingNegation
  | flagDuplicate
  | flagRepeatedNegation
  | flagEnd
  | flagUnrecognized
  | groupNameDuplicate
  | groupNameEmpty
  | groupNameInvalid
  | groupNameEnd
  | groupUnclosed
  | groupUnopened
  | repetitionRange
  | repetitionDecimalEmpty
  | repetitionUnclosed
  | repetitionMissing
  | wordEdgeUnclosed
  | wordEdgeUnrecognized
  | wordEdgeEnd
  | unicodeClassInvalid
  | backreference
  | lookAround
  | unicodeNotAllowed
  | invalidUtf8
  | propertyNotFound
  deriving DecidableEq, Repr

def Cause.message : Cause → String
  | .classEscapeInvalid => "invalid escape sequence found in character class"
  | .classRangeInvalid => "invalid character class range, the start must be <= the end"
  | .classRangeBoundary => "invalid range boundary, must be a literal"
  | .classUnclosed => "unclosed character class"
  | .decimalEmpty => "decimal literal empty"
  | .decimalInvalid => "decimal literal invalid"
  | .escapeHexEmpty => "hexadecimal literal empty"
  | .escapeHexInvalid => "hexadecimal literal is not a Unicode scalar value"
  | .escapeHexDigit => "invalid hexadecimal digit"
  | .escapeEnd => "incomplete escape sequence, reached end of pattern prematurely"
  | .escapeUnrecognized => "unrecognized escape sequence"
  | .flagDanglingNegation => "dangling flag negation operator"
  | .flagDuplicate => "duplicate flag"
  | .flagRepeatedNegation => "flag negation operator repeated"
  | .flagEnd => "expected flag but got end of regex"
  | .flagUnrecognized => "unrecognized flag"
  | .groupNameDuplicate => "duplicate capture group name"
  | .groupNameEmpty => "empty capture group name"
  | .groupNameInvalid => "invalid capture group character"
  | .groupNameEnd => "unclosed capture group name"
  | .groupUnclosed => "unclosed group"
  | .groupUnopened => "unopened group"
  | .repetitionRange => "invalid repetition count range, the start must be <= the end"
  | .repetitionDecimalEmpty => "repetition quantifier expects a valid decimal"
  | .repetitionUnclosed => "unclosed counted repetition"
  | .repetitionMissing => "repetition operator missing expression"
  | .wordEdgeUnclosed =>
    "special word boundary assertion is either unclosed or contains an invalid character"
  | .wordEdgeUnrecognized =>
    "unrecognized special word boundary assertion, valid choices are: " ++
      "start, end, start-half or end-half"
  | .wordEdgeEnd =>
    "found either the beginning of a special word boundary or a bounded repetition " ++
      "on a \\b with an opening brace, but no closing brace"
  | .unicodeClassInvalid => "invalid Unicode character class"
  | .backreference => "backreferences are not supported"
  | .lookAround => "look-around, including look-ahead and look-behind, is not supported"
  | .unicodeNotAllowed => "Unicode not allowed here"
  | .invalidUtf8 => "pattern can match invalid UTF-8"
  | .propertyNotFound => "Unicode property not found"

/- The span `earlier` is the place that a repeated name or flag repeats. -/
structure Fault where
  cause : Cause
  span : Span
  earlier : Option Span
  deriving DecidableEq, Repr

namespace Fault

def spans (f : Fault) : List Span :=
  match f.earlier with
  | none => [f.span]
  | some e => if e.start ≤ f.span.start then [e, f.span] else [f.span, e]

def lineColumn (pattern : List Char) (place : Nat) : Nat × Nat :=
  let before := pattern.take place
  (before.count '\n', (before.reverse.takeWhile (· != '\n')).length)

def spaces (n : Nat) : String := String.ofList (List.replicate n ' ')

def carets (columns : List (Nat × Nat)) : String :=
  let step (state : Nat × List Char) (c : Nat × Nat) :=
    let width := max 1 (c.2 - c.1)
    let gap := c.1 - state.1
    (state.1 + gap + width, state.2 ++ List.replicate gap ' ' ++ List.replicate width '^')
  String.ofList (columns.foldl step (0, [])).2

/- The pattern line by line; under a line the carets of the spans that lie in it. Several
lines are numbered. -/
def notated (pattern : List Char) (f : Fault) : String :=
  let shown := lines pattern
  let count := if pattern.getLast? = some '\n' then shown.length + 1 else shown.length
  let width := if count ≤ 1 then 0 else (toString count).length
  let inLine (i : Nat) : List (Nat × Nat) :=
    f.spans.filterMap fun s =>
      let start := lineColumn pattern s.start
      let stop := lineColumn pattern s.stop
      if start.1 = i ∧ stop.1 = i then some (start.2, stop.2) else none
  let one (i : Nat) (line : List Char) : String :=
    let number := toString (i + 1)
    let lead := if width = 0 then spaces 4 else spaces (width - number.length) ++ number ++ ": "
    let under := match inLine i with
      | [] => ""
      | columns => spaces (if width = 0 then 4 else 2 + width) ++ carets columns ++ "\n"
    lead ++ String.ofList line ++ "\n" ++ under
  String.join ((shown.zipIdx).map fun (line, i) => one i line)

def acrossLines (pattern : List Char) (f : Fault) : List String :=
  f.spans.filterMap fun s =>
    let start := lineColumn pattern s.start
    let stop := lineColumn pattern s.stop
    if start.1 = stop.1 then none
    else some ("on line " ++ toString (start.1 + 1) ++ " (column " ++ toString (start.2 + 1) ++
      ") through line " ++ toString (stop.1 + 1) ++ " (column " ++ toString stop.2 ++ ")")

def report (pattern : List Char) (f : Fault) : String :=
  let body := f.notated pattern
  let last := "error: " ++ f.cause.message
  if pattern.contains '\n' then
    let rule := String.ofList (List.replicate 79 '~') ++ "\n"
    let words := match f.acrossLines pattern with
      | [] => ""
      | notes => String.intercalate "\n" notes ++ "\n"
    "regex parse error:\n" ++ rule ++ body ++ rule ++ words ++ last
  else "regex parse error:\n" ++ body ++ last

end Fault
end CommentStrip.Pattern
