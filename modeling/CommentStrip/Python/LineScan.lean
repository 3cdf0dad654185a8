import CommentStrip.Keep
import CommentStrip.Python.QuoteState
import CommentStrip.Tally
import CommentStrip.Text.Lines

/-! The scan for texts that are no Python. It knows quotes and hashes alone; a comment goes
with the white space in front of it, and a line whose comment is kept stays whole. -/
namespace CommentStrip.Python
open Text

structure LineResult where
  text : List Char
  /-- Whether the comment of the line was kept, if it has one. -/
  decision : Option Bool
  state : QuoteState
  deriving DecidableEq, Repr

def scanLine (keep : KeepSet) (first : Bool) (st : QuoteState) (raw : List Char) : LineResult :=
  let (line, terminator) := splitTerminator raw
  let (hash, later) := st.feedLine line
  match hash with
  | none => ⟨raw, none, later⟩
  | some n =>
    if (n = 0 ∧ first = true ∧ startsWith ['#', '!'] line = true) ∨ keep.holds (line.drop n) = true
    then ⟨raw, some true, later⟩
    else ⟨trimEnd (line.take n) ++ terminator, some false, later⟩

def scanLines (keep : KeepSet) (first : Bool) (st : QuoteState) : List (List Char) → List LineResult
  | [] => []
  | raw :: rest =>
    let result := scanLine keep first st raw
    result :: scanLines keep false result.state rest

def lineScan (keep : KeepSet) (text : List Char) : List Char × Tally :=
  let results := scanLines keep true .initial (linesInclusive text)
  (results.flatMap LineResult.text, .ofDecisions (results.filterMap LineResult.decision))

end CommentStrip.Python
