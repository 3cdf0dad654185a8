import CommentStrip.Grammar
import CommentStrip.Text.Lines

/-! Paths with `/` between their components. Empty components vanish, and so does every dot but
one that a relative path begins with. -/
namespace CommentStrip
open Unicode Text

inductive Component where
  | root
  | here
  | parent
  | name (text : List Char)
  deriving DecidableEq, Repr

namespace Path

def component? (part : List Char) : Option Component :=
  if part = [] ∨ part = ['.'] then none
  else if part = ['.', '.'] then some .parent
  else some (.name part)

def anchor (path : List Char) : List Component :=
  match cutAt '/' path with
  | [] :: _ :: _ => [.root]
  | ['.'] :: _ => [.here]
  | _ => []

def components (path : List Char) : List Component :=
  anchor path ++ (cutAt '/' path).filterMap component?

def names (path : List Char) : List (List Char) :=
  (components path).filterMap fun
    | .name text => some text
    | _ => none

def slashed (path : List Char) : List Char := joinWith ['/'] (names path)

def fileName? (path : List Char) : Option (List Char) :=
  match (components path).getLast? with
  | some (.name text) => some text
  | _ => none

def bladeSuffix : List Char := ".blade.php".toList

/- What follows the last dot, unless nothing precedes that dot. -/
def lastSuffix? (name : List Char) : Option (List Char) :=
  let suffix := (name.reverse.takeWhile (· != '.')).reverse
  if suffix.length + 1 < name.length then some suffix else none

/- The extension in lower case and without its dot; one of them is written with two dots. -/
def extension? (path : List Char) : Option (List Char) := do
  let name := lower (← fileName? path)
  if bladeSuffix.isSuffixOf name then some "blade.php".toList else lastSuffix? name

def family? (path : List Char) : Option Family := do
  let extension ← extension? path
  Family.ofExtension? (String.ofList extension)

def join (directory name : List Char) : List Char :=
  if directory = [] ∨ directory.getLast? = some '/' then directory ++ name
  else directory ++ '/' :: name

end Path
end CommentStrip
