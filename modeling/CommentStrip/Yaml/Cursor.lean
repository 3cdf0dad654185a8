import CommentStrip.Text.Basic

/-! A place in a document, with the line and column that indentation is measured by. -/
namespace CommentStrip.Yaml
open Text

structure Cursor where
  rest : List Char
  line : Nat
  column : Nat
  keyAllowed : Bool
  deriving DecidableEq, Repr

def isSpace (c : Char) : Bool := c == ' ' || c == '\t'

def isPrintable (c : Char) : Bool :=
  c == '\t' || c == '\n' || (' ' ≤ c && c ≤ '~') || (0xA0 ≤ c.toNat && c.toNat ≤ 0xD7FF) ||
    (0xE000 ≤ c.toNat && c.toNat ≤ 0xFFFD && c.toNat ≠ 0xFEFF) || 0x10000 ≤ c.toNat

def withLineFeeds : List Char → List Char
  | [] => []
  | '\r' :: '\n' :: rest => '\n' :: withLineFeeds rest
  | '\r' :: rest => '\n' :: withLineFeeds rest
  | '\u0085' :: rest => '\n' :: withLineFeeds rest
  | c :: rest => c :: withLineFeeds rest

/- The text without its byte order mark, if only printable characters are in it. -/
def printable? (text : List Char) : Option (List Char) :=
  let unmarked := if text.head? = some '\uFEFF' then text.tail else text
  let plain := withLineFeeds unmarked
  if plain.all isPrintable then some plain else none

def atGap (rest : List Char) : Bool :=
  match rest with
  | [] => true
  | c :: _ => isSpace c || c == '\n'

namespace Cursor

def start (text : List Char) : Cursor := ⟨text, 0, 0, true⟩

def pass (n : Nat) (c : Cursor) : Cursor := ⟨c.rest.drop n, c.line, c.column + n, false⟩

def atEnd (c : Cursor) : Bool := c.rest.isEmpty

def atMark (mark : List Char) (c : Cursor) : Bool :=
  c.column == 0 && match after mark c.rest with
    | some rest => atGap rest
    | none => false

def atDocumentStart (c : Cursor) : Bool := c.atMark ['-', '-', '-']

def atDocumentEnd (c : Cursor) : Bool := c.atMark ['.', '.', '.']

def atDocumentMark (c : Cursor) : Bool := c.atDocumentStart || c.atDocumentEnd

def atSign (sign : Char) (c : Cursor) : Bool :=
  match c.rest with
  | [] => false
  | d :: rest => d == sign && atGap rest

def skipFrom (flow : Bool) (line column : Nat) (key : Bool) : List Char → Cursor
  | [] => ⟨[], line, column, key⟩
  | c :: rest =>
    if c = ' ' ∨ (c = '\t' ∧ (flow = true ∨ key = false)) then
      skipFrom flow line (column + 1) key rest
    else if c = '\n' then skipFrom flow (line + 1) 0 (key || !flow) rest
    else if c = '#' then
      let comment := rest.takeWhile (· != '\n')
      skipFrom flow line (column + 1 + comment.length) key (rest.drop comment.length)
    else ⟨c :: rest, line, column, key⟩
termination_by rest => rest.length
decreasing_by all_goals (simp only [List.length_cons, List.length_drop]; omega)

/- Past spaces, comments and line breaks. Where a key may begin, a tab is no space. -/
def skip (flow : Bool) (c : Cursor) : Cursor :=
  skipFrom flow c.line c.column c.keyAllowed c.rest

def skipSpaces (c : Cursor) : Cursor := c.pass (c.rest.takeWhile isSpace).length

end Cursor

structure Gap where
  spaces : List Char
  breaks : Nat
  /-- A tab came in front of the column that the scalar may use. -/
  tabbed : Bool
  stop : Cursor
  deriving DecidableEq, Repr

def gapFrom (indent : Nat) (spaces : List Char) (breaks : Nat) (tabbed : Bool)
    (line column : Nat) : List Char → Gap
  | [] => ⟨spaces, breaks, tabbed, ⟨[], line, column, decide (0 < breaks)⟩⟩
  | c :: rest =>
    if c = '\n' then gapFrom indent [] (breaks + 1) tabbed (line + 1) 0 rest
    else if isSpace c then
      gapFrom indent (if breaks = 0 then spaces ++ [c] else spaces) breaks
        (tabbed || (decide (0 < breaks) && c == '\t' && decide (column < indent)))
        line (column + 1) rest
    else ⟨spaces, breaks, tabbed, ⟨c :: rest, line, column, decide (0 < breaks)⟩⟩

def Cursor.gap (indent : Nat) (c : Cursor) : Gap :=
  gapFrom indent [] 0 false c.line c.column c.rest

/- One line break is a space, and of several the first is dropped. -/
def folded (breaks : Nat) : List Char :=
  if breaks = 1 then [' '] else List.replicate (breaks - 1) '\n'

def Gap.text (g : Gap) : List Char := if g.breaks = 0 then g.spaces else folded g.breaks

end CommentStrip.Yaml
