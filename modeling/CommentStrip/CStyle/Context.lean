import CommentStrip.Text.Basic

/-! What the text in front of a place says about it. All texts here run backwards, the nearest
character first. -/
namespace CommentStrip.CStyle
open Unicode Text

def isIdentifier (c : Char) : Bool := c.isAlphanum || c == '_' || c == '$'

def valueOperators : List Char := "=(,;:!&|?~^[\x7b".toList

def valueKeywords : List (List Char) :=
  ["return", "typeof", "instanceof", "case", "throw", "yield", "await", "void",
    "delete"].map String.toList

/- A slash opens a regular expression after an operator, an opening bracket or one of a few
keywords; after anything else it divides. -/
def expectsValue (before : List Char) : Bool :=
  match before.dropWhile isWhite with
  | [] => false
  | c :: rest =>
    valueOperators.contains c ||
      (let word := (c :: rest).takeWhile isIdentifier
       valueKeywords.contains word.reverse &&
         ((c :: rest).drop word.length).head? != some '.')

/- The `>` in front of `head` ends a tag: not an arrow and not a list of type arguments. -/
def closesTag (head : List Char) : Bool :=
  match head with
  | '=' :: _ => false
  | '/' :: _ => true
  | _ =>
    let inside := head.takeWhile (· != '<')
    match head.drop inside.length with
    | [] => false
    | _ :: outside =>
      inside.getLast? == some '/' || !(outside.head?.any isIdentifier)

def isTagDelimiter (c : Char) : Bool := ['<', '>', '{', '}', ';'].contains c

def followsTagText (before : List Char) : Bool :=
  let words := before.takeWhile fun c => !isTagDelimiter c
  match before.drop words.length with
  | '>' :: head => !(words.any fun c => ['=', '(', ')', '&', '|', '?'].contains c) && closesTag head
  | _ => false

def acceptsChild (before : List Char) : Bool :=
  match before.dropWhile isWhite with
  | [] => false
  | '}' :: _ => true
  | '>' :: head => closesTag head
  | near => followsTagText near

end CommentStrip.CStyle
