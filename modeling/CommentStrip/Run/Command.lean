import CommentStrip.CommandLine.Reader
import CommentStrip.Run.Filter
import CommentStrip.Run.Scan
import CommentStrip.Shell.Run

/-! A command carried out in the directory that a tree stands for. Interpreters are the scripts
of this tree. -/
namespace CommentStrip.Run
open CommandLine (Command)

def command [Pattern.Dialect] [Settings.Format] (root : FileTree) (input : List UInt8) :
    Command → Except Failure Completion
  | .strip options => strip (Shell.interpreter root) root options
  | .scan options => scan (Shell.interpreter root) root options
  | .filter options => filter (Shell.interpreter root) root options input

inductive Answer where
  | usage (error : CommandLine.UsageError)
  | failure (failure : Failure)
  | completion (completion : Completion)

def answer [Pattern.Dialect] [Settings.Format] (root : FileTree) (input : List UInt8)
    (arguments : List (List Char)) : Answer :=
  match CommandLine.read arguments with
  | .error error => .usage error
  | .ok invocation =>
    match command root input invocation.command with
    | .error failure => .failure failure
    | .ok completion => .completion completion

end CommentStrip.Run
