import CommentStrip.Keep
import CommentStrip.Python.Tokenizer
import CommentStrip.Tally

/-! Comments leave the token list together with the white space in front of them. -/
namespace CommentStrip.Python
open Text

/- An interpreter line: a comment at the very start that begins with `#!`. -/
def isInterpreterLine (atStart : Bool) (text : List Char) : Bool :=
  atStart && startsWith ['#', '!'] text

def keeps (keep : KeepSet) (atStart : Bool) (t : Token) : Bool :=
  isInterpreterLine atStart t.text || keep.holds t.text

def dropsNext (keep : KeepSet) : List Token → Bool
  | t :: _ => t.kind == .comment && !keeps keep false t
  | [] => false

def remaining (keep : KeepSet) (atStart : Bool) : List Token → List Token
  | [] => []
  | t :: rest =>
    let later := remaining keep false rest
    if t.kind = .comment then
      if keeps keep atStart t then t :: later else later
    else if t.kind = .whitespace ∧ dropsNext keep rest = true then later
    else t :: later

def decisions (keep : KeepSet) (atStart : Bool) : List Token → List Bool
  | [] => []
  | t :: rest =>
    let later := decisions keep false rest
    if t.kind = .comment then keeps keep atStart t :: later else later

def stripTokens (keep : KeepSet) (tokens : List Token) : List Char × Tally :=
  (textOf (remaining keep true tokens), .ofDecisions (decisions keep true tokens))

def strip (keep : KeepSet) (text : List Char) : Except TokenError (List Char × Tally) :=
  (tokenize text).map (stripTokens keep)

end CommentStrip.Python
