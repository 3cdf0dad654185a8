import CommentStrip.Console
import CommentStrip.Diff.Hunk

/-! Hunks as they are shown. Line breaks at the ends of lines are not. -/
namespace CommentStrip.Diff
open Text Console

def Mark.sign : Mark → String
  | .context => " "
  | .removed => "-"
  | .added => "+"

def Mark.paint (colored : Bool) : Mark → String → String
  | .context, text => text
  | .removed, text => Style.diffRemoved.paint colored text
  | .added, text => Style.diffAdded.paint colored text

def showLine (colored : Bool) (marked : Mark × List Char) : String :=
  line (marked.1.paint colored
    (marked.1.sign ++ String.ofList (dropEndWhile isBreak marked.2)))

def Hunk.heading (h : Hunk) : String :=
  "@@ -" ++ toString h.oldStart ++ "," ++ toString h.oldLength ++ " +" ++ toString h.newStart ++
    "," ++ toString h.newLength ++ " @@"

def headingLine (colored : Bool) (text : String) : String :=
  line (Style.diffHeader.paint colored text)

def Hunk.view (colored : Bool) (h : Hunk) : String :=
  headingLine colored h.heading ++ String.join (h.lines.map (showLine colored))

def view (colored : Bool) (label before after : List Char) : String :=
  if before = after then ""
  else
    headingLine colored ("--- a/" ++ String.ofList label) ++
      headingLine colored ("+++ b/" ++ String.ofList label) ++
      String.join ((hunks before after).map (Hunk.view colored))

end CommentStrip.Diff
