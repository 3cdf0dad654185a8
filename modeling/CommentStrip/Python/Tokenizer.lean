import CommentStrip.Python.Literal

/-! The tokenizer. It refuses a text that it cannot cut with certainty; the tokens of a text it
accepts are that text. -/
namespace CommentStrip.Python
open Unicode Text

/- Open brackets with their byte offsets, the innermost first, and whether the line has
anything but white space and comments so far. -/
structure State where
  brackets : List (Char × Nat)
  content : Bool
  deriving DecidableEq, Repr

def State.initial : State := ⟨[], false⟩

/- The next token's kind, how many characters it has besides the first, and the state behind
it. -/
structure Next where
  kind : TokenKind
  more : Nat
  state : State
  deriving DecidableEq, Repr

/- A sign belongs to a number that is not hexadecimal when an exponent letter precedes it. -/
def numberTail (hex : Bool) (previous : Char) : List Char → Nat
  | [] => 0
  | c :: rest =>
    if c.isAlphanum || c == '_' || c == '.' ||
        ((c == '+' || c == '-') && !hex && (previous == 'e' || previous == 'E'))
    then numberTail hex c rest + 1
    else 0

def numberMore (c : Char) (rest : List Char) : Nat :=
  numberTail (startsWith ['0', 'x'] (c :: rest) || startsWith ['0', 'X'] (c :: rest)) c rest

def State.withContent (st : State) : State := { st with content := true }

def literalNext (st : State) (affix : Affix) (offset : Nat) (word text : List Char) :
    Except TokenError Next :=
  (literalWidth affix offset (offset + byteLength word) text).map fun width =>
    ⟨.string, word.length + width - 1, st.withContent⟩

def next (st : State) (offset : Nat) (c : Char) (rest : List Char) : Except TokenError Next :=
  if isBlank c then .ok ⟨.whitespace, (rest.takeWhile isBlank).length, st⟩
  else if isBreak c then
    let kind : TokenKind := if st.brackets.isEmpty && st.content then .newline else .nl
    .ok ⟨kind, breakWidth (c :: rest) - 1, { st with content := false }⟩
  else if c = '#' then .ok ⟨.comment, (rest.takeWhile fun c => !isBreak c).length, st⟩
  else if c = '\\' then
    if breakWidth rest = 0 then .error (.strayBackslash offset)
    else .ok ⟨.continuation, breakWidth rest, st⟩
  else if isQuote c then literalNext st .plain offset [] (c :: rest)
  else if c.isDigit || (c == '.' && rest.head?.any Char.isDigit) then
    .ok ⟨.number, numberMore c rest, st.withContent⟩
  else if isNameChar c then
    let word := c :: rest.takeWhile isNameChar
    let behind := (c :: rest).drop word.length
    if behind.head?.any isQuote && isStringPrefix word then
      literalNext st (.ofWord word) offset word behind
    else .ok ⟨.name, word.length - 1, st.withContent⟩
  else if isOpening c then .ok ⟨.op, 0, ⟨(c, offset) :: st.brackets, true⟩⟩
  else if isClosing c then
    match st.brackets with
    | (opening, _) :: outer =>
      if closingOf opening = c then .ok ⟨.op, 0, ⟨outer, true⟩⟩
      else .error (.unbalancedBracket offset c)
    | [] => .error (.unbalancedBracket offset c)
  else .ok ⟨.op, 0, st.withContent⟩

def tokensFrom (st : State) (offset : Nat) : List Char → Except TokenError (List Token)
  | [] =>
    match st.brackets with
    | (_, opened) :: _ => .error (.unclosedBrackets opened)
    | [] => .ok []
  | c :: rest =>
    match next st offset c rest with
    | .error e => .error e
    | .ok found =>
      let text := c :: rest.take found.more
      match tokensFrom found.state (offset + byteLength text) (rest.drop found.more) with
      | .error e => .error e
      | .ok later => .ok (⟨found.kind, text⟩ :: later)
termination_by text => text.length
decreasing_by all_goals (simp only [List.length_cons, List.length_drop]; omega)

def tokenize (text : List Char) : Except TokenError (List Token) := tokensFrom .initial 0 text

theorem tokensFromText {st : State} {offset : Nat} {text : List Char} {tokens : List Token}
    (accepted : tokensFrom st offset text = .ok tokens) : textOf tokens = text := by
  fun_induction tokensFrom st offset text generalizing tokens with
  | case1 => cases accepted
  | case2 => cases accepted; rfl
  | case3 => cases accepted
  | case4 => cases accepted
  | case5 _ _ _ _ _ _ cut later accepted_later =>
    rename_i ih
    cases accepted
    have h := ih accepted_later
    simp only [textOf] at h
    simp [textOf, h, cut]

theorem tokenizeText {text : List Char} {tokens : List Token}
    (accepted : tokenize text = .ok tokens) : textOf tokens = text := tokensFromText accepted

end CommentStrip.Python
