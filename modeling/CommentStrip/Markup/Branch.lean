import CommentStrip.Text.Basic

/-! The regions of a template that are not plain markup: blocks in another language, blocks that
are left alone, and comments. Keywords are read without regard to case. -/
namespace CommentStrip.Markup
open Unicode Text

inductive BlockKind where
  | script
  | style
  | verbatim
  | php
  deriving DecidableEq, Repr

def BlockKind.name : BlockKind → String
  | .script => "script"
  | .style => "style"
  | .verbatim => "verbatim"
  | .php => "php"

inductive CommentKind where
  | blade
  | html
  deriving DecidableEq, Repr

inductive Region where
  | block (kind : BlockKind) (opening body closing : Nat)
  | comment (kind : CommentKind) (extent : Nat)
  deriving DecidableEq, Repr

def Region.width : Region → Nat
  | .block _ opening body closing => opening + body + closing
  | .comment _ extent => extent

/- Whether `c` is the small letter or sign `letter` up to case. Outside ASCII the long s and
the sign for kelvin are letters of this kind. -/
def sameLetter (letter c : Char) : Bool :=
  asciiLower c == letter || (letter == 's' && c == 'ſ') || (letter == 'k' && c == '\u212a')

def afterWord : (word text : List Char) → Option (List Char)
  | [], text => some text
  | _ :: _, [] => none
  | w :: word, c :: text => if sameLetter w c then afterWord word text else none

def atWordEnd (text : List Char) : Bool := !text.head?.any isWord

def openTag (word text : List Char) : Option Nat := do
  let behind ← afterWord ('<' :: word) text
  let attributes := (behind.takeWhile (· != '>')).length
  if atWordEnd behind ∧ attributes < behind.length then some (word.length + attributes + 2)
  else none

def closeTag (word text : List Char) : Option Nat := do
  let behind ← afterWord ('<' :: '/' :: word) text
  let space := (behind.takeWhile isWhite).length
  if (behind.drop space).head? = some '>' then some (word.length + space + 3) else none

def keyword (word text : List Char) : Option Nat := do
  let behind ← afterWord word text
  if atWordEnd behind then some word.length else none

def BlockKind.opens : BlockKind → List Char → Option Nat
  | .script => openTag "script".toList
  | .style => openTag "style".toList
  | .verbatim => keyword "@verbatim".toList
  | .php => keyword "@php".toList

def BlockKind.closes : BlockKind → List Char → Option Nat
  | .script => closeTag "script".toList
  | .style => closeTag "style".toList
  | .verbatim => keyword "@endverbatim".toList
  | .php => keyword "@endphp".toList

def block (kind : BlockKind) (text : List Char) : Option Region := do
  let opening ← kind.opens text
  let (body, closing) ← firstWhere kind.closes (text.drop opening)
  return .block kind opening body closing

def enclosed (opening closing text : List Char) : Option Nat := do
  let inside ← after opening text
  let body ← through closing inside
  return opening.length + body

def CommentKind.extent : CommentKind → List Char → Option Nat
  | .blade => enclosed ['{', '{', '-', '-'] ['-', '-', '}', '}']
  | .html => enclosed ['<', '!', '-', '-'] ['-', '-', '>']

def comment (kind : CommentKind) (text : List Char) : Option Region :=
  (kind.extent text).map (.comment kind)

/- Comments that old browsers read as markup. -/
def isConditional (raw : List Char) : Bool :=
  match after ['<', '!', '-', '-'] raw with
  | some body =>
    let plain := (trimStart body).map asciiLower
    startsWith "[if ".toList plain || startsWith "<![endif]".toList plain
  | none => false

def isInline (behindOpening : List Char) : Bool := (trimStart behindOpening).head? == some '('

def accepts (_before : List Char) (region : Region) (here : List Char) : Bool :=
  match region with
  | .comment .html extent => !isConditional (here.take extent)
  | .block .php opening _ _ => !isInline (here.drop opening)
  | _ => true

end CommentStrip.Markup
