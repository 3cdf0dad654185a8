import CommentStrip.Text.Lines

/-! Tidying after comments are gone: lines lose the white space at their ends, long runs of
blank lines shrink, and the text ends with one line break. -/
namespace CommentStrip.Whitespace
open Unicode Text

inductive LineEnding where
  | lf
  | crlf
  deriving DecidableEq, Repr

def LineEnding.text : LineEnding → List Char
  | .lf => ['\n']
  | .crlf => ['\r', '\n']

def lineEndingAfter (previous : Char) : List Char → LineEnding
  | [] => .lf
  | c :: rest =>
    if c = '\n' then (if previous = '\r' then .crlf else .lf) else lineEndingAfter c rest

def lineEnding (text : List Char) : LineEnding := lineEndingAfter ' ' text

def ensureBreak (text : List Char) : List Char :=
  if text.getLast? = some '\n' then text else text ++ (lineEnding text).text

/- The blank lines directly in front number `run`; up to `limit + 1` may stand together. -/
def shrinkRuns (limit : Option Nat) (run : Nat) : List (List Char) → List (List Char)
  | [] => []
  | line :: rest =>
    if line.isEmpty then
      if limit.all fun limit => decide (run ≤ limit) then line :: shrinkRuns limit (run + 1) rest
      else shrinkRuns limit (run + 1) rest
    else line :: shrinkRuns limit 0 rest

def normalize (limit : Option Nat) (text : List Char) : List Char :=
  let ending := (lineEnding text).text
  let body := dropEndWhile isBreak text
  joinWith ending (shrinkRuns limit 0 ((lines body).map trimEnd)) ++ ending

structure Policy where
  normalize : Bool
  /-- One less than the blank lines allowed in a row; none for all of them. -/
  limit : Option Nat
  deriving DecidableEq, Repr

def Policy.standard : Policy := ⟨true, some 2⟩

def Policy.apply (p : Policy) (text : List Char) : List Char :=
  if p.normalize then Whitespace.normalize p.limit text else ensureBreak text

end CommentStrip.Whitespace
