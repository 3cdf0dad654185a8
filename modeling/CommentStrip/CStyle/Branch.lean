import CommentStrip.Text.Basic

/-! The nine things that the C-style family can tell from plain code, and how far each of them
reaches from a place. -/
namespace CommentStrip.CStyle
open Unicode Text

inductive Branch where
  | jsxComment
  | singleQuoted
  | doubleQuoted
  | templateLiteral
  | cssUrl
  | regexLiteral
  | blockComment
  | lineComment
  | hashComment
  deriving DecidableEq, Repr

namespace Branch

def isComment : Branch → Bool
  | .jsxComment | .blockComment | .lineComment | .hashComment => true
  | _ => false

def name : Branch → String
  | .jsxComment => "jsx_comment_expr"
  | .singleQuoted => "single_quoted"
  | .doubleQuoted => "double_quoted"
  | .templateLiteral => "template_literal"
  | .cssUrl => "css_url"
  | .regexLiteral => "regex_literal"
  | .blockComment => "block_comment"
  | .lineComment => "line_comment"
  | .hashComment => "hash_comment"

end Branch

def quoteTail (quote : Char) : List Char → Option Nat
  | [] => none
  | ['\\'] => none
  | '\\' :: _ :: rest => (quoteTail quote rest).map (· + 2)
  | c :: rest => if c = quote then some 1 else (quoteTail quote rest).map (· + 1)

def quoted (quote : Char) : List Char → Option Nat
  | [] => none
  | c :: rest => if c = quote then (quoteTail quote rest).map (· + 1) else none

def cssUrl (text : List Char) : Option Nat := do
  let inside ← after "url(".toList text
  let body := inside.takeWhile (· != ')')
  if body.isEmpty ∨ body.length = inside.length then none else some (body.length + 5)

/- Through the slash that ends the body of a regular expression on its line. Inside brackets a
slash is plain, and a backslash takes the next character with it. -/
def regexTail : (inBrackets : Bool) → List Char → Option Nat
  | _, [] => none
  | _, ['\\'] => none
  | inBrackets, '\\' :: c :: rest =>
    if c = '\n' then none else (regexTail inBrackets rest).map (· + 2)
  | inBrackets, c :: rest =>
    if c = '\n' then none
    else if inBrackets then (regexTail (c != ']') rest).map (· + 1)
    else if c = '/' then some 1
    else (regexTail (c == '[') rest).map (· + 1)

def isRegexFlag (c : Char) : Bool := "dgimsuvy".toList.contains c

def regexLiteral : List Char → Option Nat
  | '/' :: c :: rest =>
    if c = '/' ∨ c = '*' then none
    else do
      let body ← regexTail false (c :: rest)
      let flags := ((c :: rest).drop body).takeWhile isRegexFlag
      return body + flags.length + 1
  | _ => none

def blockComment (text : List Char) : Option Nat := do
  let inside ← after ['/', '*'] text
  let body ← through ['*', '/'] inside
  return body + 2

def toLineEnd (text : List Char) : Nat := (text.takeWhile fun c => !isBreak c).length

def lineComment (text : List Char) : Option Nat :=
  if startsWith ['/', '/'] text then some (toLineEnd text) else none

def hashComment (text : List Char) : Option Nat :=
  if startsWith ['#'] text then some (toLineEnd text) else none

def innerLineComment (text : List Char) : Option Nat := do
  let inside ← after ['/', '/'] text
  let body ← through ['\n'] inside
  return body + 2

def jsxComment : List Char → Option Nat
  | '{' :: inside => do
    let lead := (inside.takeWhile isWhite).length
    let body := inside.drop lead
    let comment ← blockComment body <|> innerLineComment body
    let behind := body.drop comment
    let trail := (behind.takeWhile isWhite).length
    if (behind.drop trail).head? = some '}' then some (lead + comment + trail + 2) else none
  | _ => none

def Branch.extent : Branch → List Char → Option Nat
  | .jsxComment => CStyle.jsxComment
  | .singleQuoted => quoted '\''
  | .doubleQuoted => quoted '"'
  | .templateLiteral => quoted '\x60'
  | .cssUrl => CStyle.cssUrl
  | .regexLiteral => CStyle.regexLiteral
  | .blockComment => CStyle.blockComment
  | .lineComment => CStyle.lineComment
  | .hashComment => CStyle.hashComment

end CommentStrip.CStyle
