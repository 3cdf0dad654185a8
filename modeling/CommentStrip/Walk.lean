import CommentStrip.Exclude
import CommentStrip.FileTree

/-! Which files a target stands for. A directory stands for the files below it that some family
reads and no rule excludes; what is excluded as a directory is not entered. -/
namespace CommentStrip
open Text

structure Source where
  /-- How the file is named to the user: the target and what follows it. -/
  path : List Char
  /-- The path below the target, with slashes. -/
  relative : List Char
  place : Place
  family : Family
  content : List UInt8
  deriving DecidableEq, Repr

namespace Source

def text? (source : Source) : Option (List Char) := (Utf8.decode source.content).toOption

end Source

namespace Walk

structure Position where
  path : List Char
  relative : List Char
  place : Place
  deriving DecidableEq, Repr

def Position.down (at_ : Position) (name : List Char) : Position :=
  ⟨Path.join at_.path name, Path.join at_.relative name, at_.place ++ [name]⟩

def sourceAt (set : ExcludeSet) (at_ : Position) (content : List UInt8) : List Source :=
  match Path.family? at_.path with
  | some family =>
    if set.excludes at_.relative then []
    else [⟨at_.path, at_.relative, at_.place, family, content⟩]
  | none => []

mutual

def sourcesOf (set : ExcludeSet) (at_ : Position) : FileTree → List Source
  | .file content _ => sourceAt set at_ content
  | .directory entries =>
    if set.excludes (at_.relative ++ ['/']) then [] else sourcesAmong set at_ entries

/- One entry after the other, in the order of their names: a directory holds them in this order. -/
def sourcesAmong (set : ExcludeSet) (at_ : Position) :
    List (List Char × FileTree) → List Source
  | [] => []
  | (name, tree) :: rest => sourcesOf set (at_.down name) tree ++ sourcesAmong set at_ rest

end

inductive Selection where
  | sources (found : List Source)
  | unsupported
  | missing
  deriving DecidableEq, Repr

/- The rules see the name of a single file alone; they are asked before its family is. -/
def single (set : ExcludeSet) (target : List Char) (place : Place) (content : List UInt8) :
    Selection :=
  let name := (Path.fileName? target).getD []
  if set.excludes name then .sources []
  else match Path.family? target with
    | some family => .sources [⟨target, name, place, family, content⟩]
    | none => .unsupported

/- The target itself is entered whatever the rules say. -/
def select (root : FileTree) (set : ExcludeSet) (target : List Char) : Selection :=
  match root.locate? target with
  | none => .missing
  | some place =>
    match root.at? place with
    | none => .missing
    | some (.file content _) => single set target place content
    | some (.directory entries) => .sources (sourcesAmong set ⟨target, [], place⟩ entries)

end Walk
end CommentStrip
