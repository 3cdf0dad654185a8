import CommentStrip.FileTree
import CommentStrip.Settings.Document
import CommentStrip.Settings.Validity

/-! Settings from a file, in one format or another. -/
namespace CommentStrip
open Text

namespace Settings

inductive LoadError where
  | unreadable (path : List Char)
  | noSettings (path : List Char)
  | invalid (problems : List Problem)
  deriving DecidableEq, Repr

def LoadError.message : LoadError → String
  | .unreadable path => "Failed to read config file " ++ String.ofList path
  | .noSettings path => "Failed to parse config file " ++ String.ofList path
  | .invalid problems => invalidMessage problems

/- What a text says, if it is a document at all and one of settings. -/
class Format where
  read (text : List Char) : Option Settings

instance yaml : Format := ⟨ofDocument?⟩

/- A file that is no text cannot be read. -/
def load [Pattern.Dialect] [Format] (root : FileTree) (path : List Char) :
    Except LoadError Settings :=
  match (root.find? path).bind FileTree.content? with
  | none => .error (.unreadable path)
  | some content =>
    match Utf8.decode content with
    | .error _ => .error (.unreadable path)
    | .ok text =>
      match Format.read text with
      | none => .error (.noSettings path)
      | some settings =>
        if settings.isValid then .ok settings else .error (.invalid settings.problems)

end Settings
end CommentStrip
