import CommentStrip.Text.Basic

/-! Python tokens. A token carries its text, so a list of tokens is a text cut into parts;
byte offsets follow from the lengths. -/
namespace CommentStrip.Python
open Text

inductive TokenKind where
  | name
  | number
  | string
  | op
  | comment
  /-- The end of a logical line. -/
  | newline
  /-- A line break inside brackets or behind nothing but white space and comments. -/
  | nl
  | whitespace
  /-- A backslash and the line break it takes away. -/
  | continuation
  deriving DecidableEq, Repr

def TokenKind.label : TokenKind → String
  | .name => "name"
  | .number => "number"
  | .string => "string"
  | .op => "op"
  | .comment => "comment"
  | .newline => "newline"
  | .nl => "nl"
  | .whitespace => "whitespace"
  | .continuation => "continuation"

structure Token where
  kind : TokenKind
  text : List Char
  deriving DecidableEq, Repr

def textOf (tokens : List Token) : List Char := tokens.flatMap Token.text

def offsets (position : Nat) : List Token → List (TokenKind × Nat × Nat)
  | [] => []
  | t :: rest =>
    let stop := position + byteLength t.text
    (t.kind, position, stop) :: offsets stop rest

inductive TokenError where
  | unterminatedString (offset : Nat)
  | unterminatedTriple (offset : Nat)
  | unbalancedBracket (offset : Nat) (found : Char)
  | unclosedBrackets (offset : Nat)
  | strayBackslash (offset : Nat)
  | commentInField (offset : Nat)
  deriving DecidableEq, Repr

namespace TokenError

def message : TokenError → String
  | .unterminatedString offset => "unterminated string literal at byte " ++ toString offset
  | .unterminatedTriple offset =>
    "EOF in triple-quoted string starting at byte " ++ toString offset
  | .unbalancedBracket offset found =>
    "unmatched '" ++ String.singleton found ++ "' at byte " ++ toString offset
  | .unclosedBrackets offset =>
    "EOF in multi-line statement: bracket opened at byte " ++ toString offset ++
      " is never closed"
  | .strayBackslash offset =>
    "unexpected character after line continuation at byte " ++ toString offset
  | .commentInField offset =>
    "comment inside an f-string replacement field at byte " ++ toString offset

def offset : TokenError → Nat
  | .unterminatedString n | .unterminatedTriple n | .unbalancedBracket n _ | .unclosedBrackets n
  | .strayBackslash n | .commentInField n => n

def shift (n : Nat) : TokenError → TokenError
  | .unterminatedString k => .unterminatedString (n + k)
  | .unterminatedTriple k => .unterminatedTriple (n + k)
  | .unbalancedBracket k c => .unbalancedBracket (n + k) c
  | .unclosedBrackets k => .unclosedBrackets (n + k)
  | .strayBackslash k => .strayBackslash (n + k)
  | .commentInField k => .commentInField (n + k)

end TokenError

def isBlank (c : Char) : Bool := c == ' ' || c == '\t' || c == '\x0c'

def isQuote (c : Char) : Bool := c == '\'' || c == '"'

def isNameChar (c : Char) : Bool := c.isAlphanum || c == '_' || 0x80 ≤ c.toNat

def isOpening (c : Char) : Bool := c == '(' || c == '[' || c == '{'

def isClosing (c : Char) : Bool := c == ')' || c == ']' || c == '}'

def closingOf (opening : Char) : Char :=
  if opening = '(' then ')' else if opening = '[' then ']' else '}'

def breakWidth : List Char → Nat
  | '\r' :: '\n' :: _ => 2
  | '\r' :: _ => 1
  | '\n' :: _ => 1
  | _ => 0

theorem textOfCons (t : Token) (rest : List Token) : textOf (t :: rest) = t.text ++ textOf rest := rfl

theorem textOfAppend (a b : List Token) : textOf (a ++ b) = textOf a ++ textOf b := by
  simp [textOf]

theorem offsetsLength (position : Nat) (tokens : List Token) :
    (offsets position tokens).length = tokens.length := by
  induction tokens generalizing position with
  | nil => rfl
  | cons t later ih => rw [offsets, List.length_cons, List.length_cons, ih]

theorem offsetsAppend (position : Nat) (a b : List Token) :
    offsets position (a ++ b) =
      offsets position a ++ offsets (position + byteLength (textOf a)) b := by
  induction a generalizing position with
  | nil => rfl
  | cons t a ih =>
    simp only [List.cons_append, offsets, ih, textOfCons, byteLengthAppend, Nat.add_assoc]

end CommentStrip.Python
