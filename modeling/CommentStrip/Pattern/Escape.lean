import CommentStrip.Pattern.Site

/-! What can stand for one character or one condition: a plain character, the dot, an anchor,
or a backslash with what follows it. -/
namespace CommentStrip.Pattern
open Unicode

inductive Shorthand where
  | digit
  | white
  | word
  deriving DecidableEq, Repr

inductive Atom where
  | literal (c : Char) (byte : Bool)
  | dot
  | caret
  | dollar
  | look (condition : Bool → Look)
  | shorthand (kind : Shorthand) (negated : Bool)
  | property (name : List Char) (negated : Bool)

def hexDigit (c : Char) : Option Nat :=
  if '0' ≤ c ∧ c ≤ '9' then some (c.toNat - 48)
  else if 'a' ≤ c ∧ c ≤ 'f' then some (c.toNat - 87)
  else if 'A' ≤ c ∧ c ≤ 'F' then some (c.toNat - 55)
  else none

def isHex (c : Char) : Bool := (hexDigit c).isSome

def hexValue (digits : List Char) : Nat :=
  digits.foldl (fun n c => n * 16 + (hexDigit c).getD 0) 0

def scalar? (n : Nat) : Option Char := if n.isValidChar then some (Char.ofNat n) else none

def isMeta (c : Char) : Bool :=
  ['\\', '.', '+', '*', '?', '(', ')', '|', '[', ']', '{', '}', '^', '$', '#', '&', '-',
    '~'].contains c

def isEscapable (c : Char) : Bool :=
  isMeta c || (isAscii c && !c.isAlphanum && c != '<' && c != '>')

def hexDigits (verbose : Bool) : Nat → Site → Except Fault (List Char × Site)
  | 0, s => .ok ([], s)
  | count + 1, s =>
    match s.char? with
    | none => fail .escapeEnd s.here
    | some c =>
      if isHex c then do
        let (digits, last) ← hexDigits verbose count (s.next verbose)
        return (c :: digits, last)
      else fail .escapeHexDigit s.glyph

def hex (verbose : Bool) (width : Nat) (s : Site) : Except Fault (Char × Site) := do
  let first := s.next verbose
  match first.char? with
  | none => fail .escapeEnd first.here
  | some '{' =>
    let (digits, last) := (first.next verbose).takeWhile verbose isHex
    match last.char? with
    | none => fail .escapeEnd (first.upTo last)
    | some '}' =>
      let behind := last.next verbose
      if digits.isEmpty then fail .escapeHexEmpty (first.upTo behind)
      else match scalar? (hexValue digits) with
        | none => fail .escapeHexInvalid ((first.advance 1).upTo last)
        | some c => return (c, behind)
    | some _ => fail .escapeHexDigit last.glyph
  | some _ =>
    let (digits, behind) ← hexDigits verbose width first
    match scalar? (hexValue digits) with
    | none => fail .escapeHexInvalid (first.upTo behind)
    | some c => return (c, behind)

def property (verbose : Bool) (s : Site) : Except Fault (List Char × Site) := do
  let first := s.next verbose
  match first.char? with
  | none => fail .escapeEnd first.here
  | some '{' =>
    let (name, last) := (first.next verbose).takeWhile verbose (· != '}')
    if last.atEnd then fail .escapeEnd last.here else return (name, last.advance 1)
  | some '\\' => fail .unicodeClassInvalid first.glyph
  | some c => return ([c], first.next verbose)

def isEdgeChar (c : Char) : Bool := c.isAlpha || c == '-'

/- A word edge may carry a name in braces; other braces count repetitions. `s` stands at the
brace, `slash` at the backslash. -/
def namedEdge (verbose : Bool) (slash s : Site) : Except Fault (Option ((Bool → Look) × Site)) := do
  let first := s.next verbose
  match first.char? with
  | none => fail .wordEdgeEnd (slash.upTo first)
  | some c =>
    if !isEdgeChar c then return none
    let (name, last) := first.takeWhile verbose isEdgeChar
    if last.char? != some '}' then fail .wordEdgeUnclosed (s.upTo last)
    let behind := last.advance 1
    match String.ofList name with
    | "start" => return some (.wordStart, behind)
    | "end" => return some (.wordEnd, behind)
    | "start-half" => return some (.wordStartHalf, behind)
    | "end-half" => return some (.wordEndHalf, behind)
    | _ => fail .wordEdgeUnrecognized (first.upTo last)

def escape (verbose : Bool) (s : Site) : Except Fault (Atom × Site) := do
  let named := s.advance 1
  match named.char? with
  | none => fail .escapeEnd (s.upTo named)
  | some c =>
    let behind := named.advance 1
    let plain (c : Char) : Except Fault (Atom × Site) := .ok (.literal c false, behind)
    let look (condition : Bool → Look) : Except Fault (Atom × Site) := .ok (.look condition, behind)
    let short (kind : Shorthand) (negated : Bool) : Except Fault (Atom × Site) :=
      .ok (.shorthand kind negated, behind)
    if '0' ≤ c ∧ c ≤ '9' then fail .backreference (s.upTo behind)
    else match c with
      | 'x' =>
        let byte := named.peek verbose != some '{'
        let (value, last) ← hex verbose 2 named
        return (.literal value byte, last)
      | 'u' =>
        let (value, last) ← hex verbose 4 named
        return (.literal value false, last)
      | 'U' =>
        let (value, last) ← hex verbose 8 named
        return (.literal value false, last)
      | 'p' =>
        let (name, last) ← property verbose named
        return (.property name false, last)
      | 'P' =>
        let (name, last) ← property verbose named
        return (.property name true, last)
      | 'd' => short .digit false
      | 'D' => short .digit true
      | 's' => short .white false
      | 'S' => short .white true
      | 'w' => short .word false
      | 'W' => short .word true
      | 'a' => plain '\x07'
      | 'f' => plain '\x0c'
      | 't' => plain '\t'
      | 'n' => plain '\n'
      | 'r' => plain '\r'
      | 'v' => plain '\x0b'
      | 'A' => look fun _ => .textStart
      | 'z' => look fun _ => .textEnd
      | 'b' =>
        if behind.char? = some '{' then
          match ← namedEdge verbose s behind with
          | some (condition, last) => return (.look condition, last)
          | none => look .wordEdge
        else look .wordEdge
      | 'B' => look .noWordEdge
      | '<' => look .wordStart
      | '>' => look .wordEnd
      | _ => if isEscapable c then plain c else fail .escapeUnrecognized (s.upTo behind)

def atom (verbose : Bool) (c : Char) (s : Site) : Except Fault (Atom × Site) :=
  match c with
  | '\\' => escape verbose s
  | '.' => .ok (.dot, s.advance 1)
  | '^' => .ok (.caret, s.advance 1)
  | '$' => .ok (.dollar, s.advance 1)
  | _ => .ok (.literal c false, s.advance 1)

end CommentStrip.Pattern
