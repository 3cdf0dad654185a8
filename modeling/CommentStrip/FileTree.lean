import CommentStrip.Path
import CommentStrip.Text.Utf8

/-! A tree of files below one directory. A place in it is the list of names on the way down.
The tree is all there is, and whoever gives a path stands in its root. There are no links in it, and
every file can be read and written. -/
namespace CommentStrip
open Text

inductive FileTree where
  | file (content : List UInt8) (executable : Bool)
  /-- Entries in the order of their names, each name once. -/
  | directory (entries : List (List Char × FileTree))

abbrev Place := List (List Char)

namespace FileTree

def empty : FileTree := .directory []

def isDirectory : FileTree → Bool
  | .directory _ => true
  | .file _ _ => false

def content? : FileTree → Option (List UInt8)
  | .file content _ => some content
  | .directory _ => none

def entries : FileTree → List (List Char × FileTree)
  | .directory entries => entries
  | .file _ _ => []

def at? : Place → FileTree → Option FileTree
  | [], tree => some tree
  | name :: more, tree =>
    match tree.entries.lookup name with
    | some below => below.at? more
    | none => none

def setEntry (name : List Char) (tree : FileTree) :
    List (List Char × FileTree) → List (List Char × FileTree)
  | [] => [(name, tree)]
  | (other, there) :: rest =>
    if name < other then (name, tree) :: (other, there) :: rest
    else if name = other then (name, tree) :: rest
    else (other, there) :: setEntry name tree rest

def plant (tree : FileTree) : Place → FileTree → FileTree
  | [], _ => tree
  | name :: more, there =>
    .directory (setEntry name (plant tree more ((there.entries.lookup name).getD empty))
      there.entries)

def replace (content : List UInt8) : Place → FileTree → FileTree
  | [], .file _ executable => .file content executable
  | [], .directory entries => .directory entries
  | _ :: _, .file old executable => .file old executable
  | name :: more, .directory entries =>
    .directory (entries.map fun (other, below) =>
      if other = name then (other, replace content more below) else (other, below))

/- Dots, empty parts and steps back up all need a directory to stand in. Above the root is the
root. -/
def follow (root : FileTree) (here : Place) : List (List Char) → Option Place
  | [] => some here
  | part :: rest =>
    match root.at? here with
    | some (.directory _) =>
      match Path.component? part with
      | none => follow root here rest
      | some .parent => follow root here.dropLast rest
      | some _ =>
        match root.at? (here ++ [part]) with
        | some _ => follow root (here ++ [part]) rest
        | none => none
    | _ => none

/- The place that a path leads to, if something is there. A slash in front makes no difference. -/
def locate? (root : FileTree) (path : List Char) : Option Place :=
  if path = [] then none else follow root [] (cutAt '/' path)

def find? (root : FileTree) (path : List Char) : Option FileTree := do
  root.at? (← root.locate? path)

mutual

def filesBelow (here : Place) : FileTree → List (Place × List UInt8)
  | .file content _ => [(here, content)]
  | .directory entries => filesAmong here entries

def filesAmong (here : Place) : List (List Char × FileTree) → List (Place × List UInt8)
  | [] => []
  | (name, tree) :: rest => filesBelow (here ++ [name]) tree ++ filesAmong here rest

end

def files (root : FileTree) : List (Place × List UInt8) := filesBelow [] root

def changes (before now : FileTree) : List (Place × List UInt8) :=
  now.files.filter fun (place, content) =>
    ((before.at? place).bind content?) ≠ some content

end FileTree
end CommentStrip
