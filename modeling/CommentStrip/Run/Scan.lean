import CommentStrip.Report
import CommentStrip.Run.Strip

/-! Counting the comments of the files under a target. No file changes, and no interpreter is
asked. -/
namespace CommentStrip.Run
open Console

def scanFile (engine : Engine) (report : Report) (source : Source) : Report :=
  match source.text? with
  | none => report.skip source.relative
  | some text =>
    report.add ⟨source.relative, source.family.name, engine.analyze source.family text⟩

def scanAll (engine : Engine) (found : List Source) : Report :=
  found.foldl (scanFile engine) .empty

def skipWarning (source : Source) : String :=
  if source.text?.isNone then notTextWarning source.path else ""

def thresholdError (report : Report) (threshold : Option Nat) : String :=
  if report.exceeds threshold then
    message .error false ("Found " ++ toString report.total.removed ++
      " removable comment(s), over the threshold of " ++ toString (threshold.getD 0) ++ ".")
  else ""

def scan [Pattern.Dialect] [Settings.Format] (find : List Char → Php.Interpreter) (root : FileTree)
    (o : CommandLine.Scan) : Except Failure Completion := do
  let s ← settings root o.engine o.exclude .none
  let set ← excludeSet s
  let engine ← engine find s
  let (found, walkLog) ← sources root set o.target
  let report := scanAll engine found
  return {
    output := if o.json then line report.prettyJson else report.view false
    errors := walkLog ++ String.join (found.map skipWarning) ++ thresholdError report o.threshold
    success := !report.exceeds o.threshold
    tree := root }

end CommentStrip.Run
