import CommentStrip.Pattern.Compile
import CommentStrip.Path

/-! Which paths a run leaves out. Globs cover the whole path and their stars also pass slashes;
regular expressions may match anywhere in it. -/
namespace CommentStrip
open Text

namespace Glob

def isMeta (c : Char) : Bool := "\\.+*?()|[]\x7b\x7d^$#&-~".toList.contains c

def escaped (c : Char) : List Char := if isMeta c then ['\\', c] else [c]

def escapedInClass (c : Char) : List Char :=
  if c ∈ ['\\', '[', '&', '~', '^'] then ['\\', c] else [c]

def classBody : List Char → List Char
  | '!' :: rest => '^' :: rest.flatMap escapedInClass
  | rest => rest.flatMap escapedInClass

/- The items of a class whose opening bracket stands just before. A class without items is
none; the bracket that would close it is plain. -/
def classItems? (text : List Char) : Option (List Char) :=
  let items := text.takeWhile (· != ']')
  if items.length = text.length ∨ items = [] ∨ items = ['!'] then none else some items

def expressionFrom : List Char → List Char
  | [] => []
  | '*' :: rest => '.' :: '*' :: expressionFrom (rest.dropWhile (· == '*'))
  | '?' :: rest => '.' :: expressionFrom rest
  | '[' :: rest =>
    match classItems? rest with
    | some items => '[' :: classBody items ++ ']' :: expressionFrom (rest.drop (items.length + 1))
    | none => '\\' :: '[' :: expressionFrom rest
  | c :: rest => escaped c ++ expressionFrom rest
termination_by glob => glob.length
decreasing_by
  all_goals simp only [List.length_cons, List.length_drop]
  · have := (List.dropWhile_sublist (· == '*') (l := rest)).length_le
    omega
  all_goals omega

def anyDirectories : List Char := "(?:.*/)?".toList

def expression (glob : List Char) : List Char :=
  let body := match after ['*', '*', '/'] glob with
    | some rest => anyDirectories ++ expressionFrom rest
    | none => expressionFrom glob
  '^' :: body ++ ['$']

end Glob

structure Glob.Rule where
  glob : String
  covers : Pattern.Matcher

structure ExcludeSet where
  globs : List Glob.Rule
  regexes : List Pattern.Matcher

namespace ExcludeSet

/- Bad globs are reported before anything is said about the regular expressions. -/
def compile [Pattern.Dialect] (globs regexes : List String) :
    Except Pattern.BadPatterns ExcludeSet :=
  let expressions := globs.map fun glob => String.ofList (Glob.expression glob.toList)
  match Pattern.compile "exclude" expressions, Pattern.compile "exclude-regex" regexes with
  | .error bad, _ => .error bad
  | .ok _, .error bad => .error bad
  | .ok patterns, .ok regexes =>
    .ok ⟨(globs.zip patterns).map fun (glob, covers) => ⟨glob, covers⟩, regexes⟩

def excludes (set : ExcludeSet) (path : List Char) : Bool :=
  set.globs.any (fun rule => rule.covers path) || set.regexes.any fun occurs => occurs path

end ExcludeSet
end CommentStrip
