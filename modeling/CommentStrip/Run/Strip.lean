import CommentStrip.Diff.View
import CommentStrip.Run.Completion
import CommentStrip.Run.Setup

/-! Stripping the files under a target in place. All files are worked on before the tree
changes and before anything is said. -/
namespace CommentStrip.Run
open Console Text

inductive FileStatus where
  | unchanged
  | changed (before after : List Char)
  | notText
  deriving DecidableEq, Repr

structure FileReport where
  source : Source
  status : FileStatus
  requests : List (List Char)
  deriving DecidableEq, Repr

def stripFile (engine : Engine) (policy : Whitespace.Policy) (source : Source) : FileReport :=
  match source.text? with
  | none => ⟨source, .notText, []⟩
  | some before =>
    let outcome := engine.strip source.family before
    let after := policy.apply outcome.text
    ⟨source, if after = before then .unchanged else .changed before after,
      outcome.requests⟩

def FileReport.isChanged (r : FileReport) : Bool :=
  match r.status with
  | .changed _ _ => true
  | _ => false

def writeBack (root : FileTree) (r : FileReport) : FileTree :=
  match r.status with
  | .changed _ after => root.replace (Utf8.encode after) r.source.place
  | _ => root

def writeAll (root : FileTree) (reports : List FileReport) : FileTree :=
  reports.foldl writeBack root

def changeLine (dryRun : Bool) (path : List Char) : String :=
  line (Style.success.paint false
    ((if dryRun then "[DRY] Would update: " else "Updated: ") ++ String.ofList path))

def FileReport.view (dryRun diff : Bool) (r : FileReport) : String :=
  match r.status with
  | .changed before after =>
    changeLine dryRun r.source.path ++
      (if diff then Diff.view false r.source.relative before after else "")
  | _ => ""

def notTextWarning (path : List Char) : String :=
  message .warn false ("Skipping " ++ String.ofList path ++ ": not valid UTF-8.")

def FileReport.warning (r : FileReport) : String :=
  match r.status with
  | .notText => notTextWarning r.source.path
  | _ => ""

def countLine (changed : Nat) : String := line ("Done. Files changed: " ++ toString changed)

def unsupportedWarning (path : List Char) : String :=
  "[WARN decomment::utils::walker] Skipping " ++ String.ofList path ++
    ": unsupported file type.\n"

def sources (root : FileTree) (set : ExcludeSet) (target : List Char) :
    Except Failure (List Source × String) :=
  match Walk.select root set target with
  | .sources found => .ok (found, "")
  | .unsupported => .ok ([], unsupportedWarning target)
  | .missing => .error (.missingTarget target)

def emptyNotice (found : List Source) (target : List Char) : String :=
  if found.isEmpty then
    message .info false ("No supported files found under " ++ String.ofList target ++ ".")
  else ""

def strip [Pattern.Dialect] [Settings.Format] (find : List Char → Php.Interpreter) (root : FileTree)
    (o : CommandLine.Strip) : Except Failure Completion := do
  let s ← settings root o.engine o.exclude o.whitespace
  let set ← excludeSet s
  let engine ← engine find s
  let (found, walkLog) ← sources root set o.target
  let reports := found.map (stripFile engine s.policy)
  let requests := reports.flatMap FileReport.requests
  return {
    output := String.join (reports.map (FileReport.view o.dryRun o.diff)) ++
      countLine (reports.countP FileReport.isChanged)
    errors := walkLog ++ emptyNotice found o.target ++ interpreterWarning find s requests ++
      String.join (reports.map FileReport.warning)
    success := true
    tree := if o.dryRun then root else writeAll root reports }

end CommentStrip.Run
