import CommentStrip.Python.Token

/-! String literals, from the opening quote through the closing one. A formatted literal holds
replacement fields, a field holds literals and may end in a format spec, and a spec holds
fields again; what is open at a place is a stack of contexts. -/
namespace CommentStrip.Python
open Unicode Text

structure Affix where
  raw : Bool
  formatted : Bool
  deriving DecidableEq, Repr

namespace Affix

def plain : Affix := ⟨false, false⟩

def ofWord (word : List Char) : Affix :=
  ⟨word.any fun c => c == 'r' || c == 'R', word.any fun c => c == 'f' || c == 'F'⟩

end Affix

def stringPrefixes : List (List Char) :=
  ["r", "b", "u", "f", "rb", "br", "fr", "rf"].map String.toList

def isStringPrefix (word : List Char) : Bool := stringPrefixes.contains (word.map asciiLower)

/- In each, `start` is where the literal that a message would name begins. -/
inductive Context where
  | body (quote : Char) (triple : Bool) (affix : Affix) (start : Nat)
  | field (depth : Nat) (start : Nat)
  | spec (start : Nat)
  deriving DecidableEq, Repr

def Context.unterminated : Context → TokenError
  | .body _ triple _ start =>
    if triple then .unterminatedTriple start else .unterminatedString start
  | .field _ start => .unterminatedString start
  | .spec start => .unterminatedString start

/- What happens at one place: how many characters pass besides the first, and what is open
afterwards. -/
inductive Move where
  | stay (more : Nat) (context : Context)
  | enter (more : Nat) (context inner : Context)
  | leave (more : Nat)
  deriving DecidableEq, Repr

def isTriple (quote : Char) (text : List Char) : Bool := startsWith [quote, quote, quote] text

/- How many characters besides the backslash an escape takes from the text behind it. A named
character in a formatted literal ends at its closing brace. -/
def escapeWidth (affix : Affix) (rest : List Char) : Option Nat :=
  if affix.formatted && !affix.raw && startsWith ['N', '{'] rest then through ['}'] rest
  else if startsWith ['\r', '\n'] rest then some 2
  else some (min 1 rest.length)

def bodyMove (quote : Char) (triple : Bool) (affix : Affix) (start : Nat) (c : Char)
    (rest : List Char) : Except TokenError Move :=
  let stay : Context := .body quote triple affix start
  if isBreak c && !triple then .error stay.unterminated
  else if c = '\\' then
    match escapeWidth affix rest with
    | some more => .ok (.stay more stay)
    | none => .error stay.unterminated
  else if c = '{' ∧ affix.formatted = true then
    if rest.head? = some '{' then .ok (.stay 1 stay) else .ok (.enter 0 stay (.field 0 start))
  else if c = quote then
    if triple then (if isTriple quote (c :: rest) then .ok (.leave 2) else .ok (.stay 0 stay))
    else .ok (.leave 0)
  else .ok (.stay 0 stay)

def openLiteral (affix : Affix) (start : Nat) (c : Char) (rest : List Char) : Nat × Context :=
  let triple := isTriple c (c :: rest)
  (if triple then 2 else 0, .body c triple affix start)

def fieldMove (depth start offset : Nat) (c : Char) (rest : List Char) : Except TokenError Move :=
  if isOpening c then .ok (.stay 0 (.field (depth + 1) start))
  else if isClosing c && depth != 0 then .ok (.stay 0 (.field (depth - 1) start))
  else if c = '}' then .ok (.leave 0)
  else if isClosing c then .error (.unbalancedBracket offset c)
  else if c = ':' ∧ depth = 0 then .ok (.stay 0 (.spec start))
  else if c = '#' then .error (.commentInField offset)
  else if isQuote c then
    let (more, inner) := openLiteral .plain offset c rest
    .ok (.enter more (.field depth start) inner)
  else if isNameChar c then
    let word := c :: rest.takeWhile isNameChar
    match (c :: rest).drop word.length with
    | quote :: behind =>
      if isQuote quote && isStringPrefix word then
        let (more, inner) := openLiteral (.ofWord word) offset quote behind
        .ok (.enter (word.length + more) (.field depth start) inner)
      else .ok (.stay (word.length - 1) (.field depth start))
    | [] => .ok (.stay (word.length - 1) (.field depth start))
  else .ok (.stay 0 (.field depth start))

def specMove (start : Nat) (c : Char) : Except TokenError Move :=
  if isBreak c then .error (Context.spec start).unterminated
  else if c = '{' then .ok (.enter 0 (.spec start) (.field 0 start))
  else if c = '}' then .ok (.leave 0)
  else .ok (.stay 0 (.spec start))

def Context.move (context : Context) (offset : Nat) (c : Char) (rest : List Char) :
    Except TokenError Move :=
  match context with
  | .body quote triple affix start => bodyMove quote triple affix start c rest
  | .field depth start => fieldMove depth start offset c rest
  | .spec start => specMove start c

def Move.more : Move → Nat
  | .stay more _ => more
  | .enter more _ _ => more
  | .leave more => more

def Move.apply (below : List Context) : Move → List Context
  | .stay _ context => context :: below
  | .enter _ context inner => inner :: context :: below
  | .leave _ => below

/- The number of characters until nothing is open. `offset` is the byte offset of the text. -/
def closeAll (offset : Nat) : List Context → List Char → Except TokenError Nat
  | [], _ => .ok 0
  | context :: _, [] => .error context.unterminated
  | context :: below, c :: rest =>
    match context.move offset c rest with
    | .error e => .error e
    | .ok move =>
      let passed := byteLength (c :: rest.take move.more)
      match closeAll (offset + passed) (move.apply below) (rest.drop move.more) with
      | .error e => .error e
      | .ok n => .ok (n + (move.more + 1))
termination_by _ text => text.length
decreasing_by all_goals (simp only [List.length_cons, List.length_drop]; omega)

def literalWidth (affix : Affix) (start offset : Nat) : List Char → Except TokenError Nat
  | [] => .ok 0
  | c :: rest =>
    let (more, context) := openLiteral affix start c rest
    let passed := byteLength (c :: rest.take more)
    (closeAll (offset + passed) [context] (rest.drop more)).map (· + (more + 1))

end CommentStrip.Python
