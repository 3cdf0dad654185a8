import CommentStrip.Run.Completion
import CommentStrip.Run.Setup

/-! Stripping one text from the input to the output. The input is looked at first of all. -/
namespace CommentStrip.Run
open Text

def filter [Pattern.Dialect] [Settings.Format] (find : List Char → Php.Interpreter)
    (root : FileTree) (o : CommandLine.Filter) (input : List UInt8) : Except Failure Completion :=
  match Utf8.decode input with
  | .error fault => .error (.notText fault)
  | .ok text => do
    let s ← settings root o.engine .none o.whitespace
    let outcome ← stripByExtension find s o.extension text
    return {
      output := String.ofList outcome.text
      errors := interpreterWarning find s outcome.requests
      success := true
      tree := root }

end CommentStrip.Run
