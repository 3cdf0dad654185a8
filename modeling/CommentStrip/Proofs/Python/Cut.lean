import CommentStrip.Proofs.Python.Characters
import CommentStrip.Python.Tokenizer

/-! The next token as a relation, with one case for each kind of first character, and a text cut
into tokens as a chain of such cases. The conditions of a case exclude the others. -/
namespace CommentStrip.Python
open Unicode Text

def breakKind (st : State) : TokenKind :=
  if st.brackets.isEmpty && st.content then .newline else .nl

def startsNumber (c : Char) (rest : List Char) : Bool :=
  c.isDigit || (c == '.' && rest.head?.any Char.isDigit)

def wordOf (c : Char) (rest : List Char) : List Char := c :: rest.takeWhile isNameChar

def behindWord (rest : List Char) : List Char := rest.drop (rest.takeWhile isNameChar).length

def prefixesLiteral (c : Char) (rest : List Char) : Bool :=
  (behindWord rest).head?.any isQuote && isStringPrefix (wordOf c rest)

def isMark (c : Char) : Bool :=
  !(isBlank c || isBreak c || c == '#' || c == '\\' || isQuote c || c.isDigit || isNameChar c ||
    isOpening c || isClosing c)

inductive Cut (st : State) (offset : Nat) (c : Char) (rest : List Char) : Next → Prop where
  | blank (first : isBlank c = true) :
      Cut st offset c rest ⟨.whitespace, (rest.takeWhile isBlank).length, st⟩
  | lineBreak (first : isBreak c = true) :
      Cut st offset c rest ⟨breakKind st, breakWidth (c :: rest) - 1, { st with content := false }⟩
  | comment (first : c = '#') :
      Cut st offset c rest ⟨.comment, (rest.takeWhile fun c => !isBreak c).length, st⟩
  | continuation (first : c = '\\') (behind : breakWidth rest ≠ 0) :
      Cut st offset c rest ⟨.continuation, breakWidth rest, st⟩
  | literal {width} (first : isQuote c = true)
      (closed : literalWidth .plain offset offset (c :: rest) = .ok width) :
      Cut st offset c rest ⟨.string, width - 1, st.withContent⟩
  | number (first : startsNumber c rest = true) :
      Cut st offset c rest ⟨.number, numberMore c rest, st.withContent⟩
  | prefixed {width} (first : isNameChar c = true) (word : c.isDigit = false)
      (quoted : prefixesLiteral c rest = true)
      (closed : literalWidth (.ofWord (wordOf c rest)) offset
        (offset + byteLength (wordOf c rest)) (behindWord rest) = .ok width) :
      Cut st offset c rest ⟨.string, (wordOf c rest).length + width - 1, st.withContent⟩
  | name (first : isNameChar c = true) (word : c.isDigit = false)
      (alone : prefixesLiteral c rest = false) :
      Cut st offset c rest ⟨.name, (rest.takeWhile isNameChar).length, st.withContent⟩
  | opening (first : isOpening c = true) :
      Cut st offset c rest ⟨.op, 0, ⟨(c, offset) :: st.brackets, true⟩⟩
  | closing {opening opened outer} (first : isClosing c = true)
      (innermost : st.brackets = (opening, opened) :: outer) (closes : closingOf opening = c) :
      Cut st offset c rest ⟨.op, 0, ⟨outer, true⟩⟩
  | mark (first : isMark c = true) (alone : startsNumber c rest = false) :
      Cut st offset c rest ⟨.op, 0, st.withContent⟩

theorem literalTaken {st : State} {affix : Affix} {offset : Nat} {word text : List Char}
    {found : Next} (taken : literalNext st affix offset word text = .ok found) :
    ∃ width, literalWidth affix offset (offset + byteLength word) text = .ok width ∧
      found = ⟨.string, word.length + width - 1, st.withContent⟩ := by
  unfold literalNext at taken
  cases closed : literalWidth affix offset (offset + byteLength word) text with
  | error e => simp [closed, Except.map] at taken
  | ok width =>
    simp only [closed, Except.map, Except.ok.injEq] at taken
    exact ⟨width, rfl, taken.symm⟩

def wordNext (st : State) (offset : Nat) (c : Char) (rest : List Char) : Except TokenError Next :=
  if prefixesLiteral c rest then
    literalNext st (.ofWord (wordOf c rest)) offset (wordOf c rest) (behindWord rest)
  else .ok ⟨.name, (rest.takeWhile isNameChar).length, st.withContent⟩

def closingNext (st : State) (offset : Nat) (c : Char) : Except TokenError Next :=
  match st.brackets with
  | (opening, _) :: outer =>
    if closingOf opening = c then .ok ⟨.op, 0, ⟨outer, true⟩⟩
    else .error (.unbalancedBracket offset c)
  | [] => .error (.unbalancedBracket offset c)

theorem nextSteps (st : State) (offset : Nat) (c : Char) (rest : List Char) :
    next st offset c rest =
      if isBlank c then .ok ⟨.whitespace, (rest.takeWhile isBlank).length, st⟩
      else if isBreak c then
        .ok ⟨breakKind st, breakWidth (c :: rest) - 1, { st with content := false }⟩
      else if c = '#' then .ok ⟨.comment, (rest.takeWhile fun c => !isBreak c).length, st⟩
      else if c = '\\' then
        if breakWidth rest = 0 then .error (.strayBackslash offset)
        else .ok ⟨.continuation, breakWidth rest, st⟩
      else if isQuote c then literalNext st .plain offset [] (c :: rest)
      else if startsNumber c rest then .ok ⟨.number, numberMore c rest, st.withContent⟩
      else if isNameChar c then wordNext st offset c rest
      else if isOpening c then .ok ⟨.op, 0, ⟨(c, offset) :: st.brackets, true⟩⟩
      else if isClosing c then closingNext st offset c
      else .ok ⟨.op, 0, st.withContent⟩ := rfl

theorem cutNext {st : State} {offset : Nat} {c : Char} {rest : List Char} {found : Next}
    (taken : next st offset c rest = .ok found) : Cut st offset c rest found := by
  rw [nextSteps] at taken
  by_cases blank : isBlank c = true
  · rw [if_pos blank] at taken
    cases taken
    exact .blank blank
  rw [if_neg blank] at taken
  by_cases lineBreak : isBreak c = true
  · rw [if_pos lineBreak] at taken
    cases taken
    exact .lineBreak lineBreak
  rw [if_neg lineBreak] at taken
  by_cases hash : c = '#'
  · rw [if_pos hash] at taken
    cases taken
    exact .comment hash
  rw [if_neg hash] at taken
  by_cases backslash : c = '\\'
  · rw [if_pos backslash] at taken
    by_cases stray : breakWidth rest = 0
    · rw [if_pos stray] at taken
      cases taken
    · rw [if_neg stray] at taken
      cases taken
      exact .continuation backslash stray
  rw [if_neg backslash] at taken
  by_cases quote : isQuote c = true
  · rw [if_pos quote] at taken
    obtain ⟨width, closed, rfl⟩ := literalTaken taken
    have cut : Cut st offset c rest ⟨.string, width - 1, st.withContent⟩ :=
      .literal quote (by simpa [byteLengthNil] using closed)
    simpa using cut
  rw [if_neg quote] at taken
  by_cases number : startsNumber c rest = true
  · rw [if_pos number] at taken
    cases taken
    exact .number number
  rw [if_neg number] at taken
  have digit : c.isDigit = false := by
    simp only [startsNumber, Bool.or_eq_true, not_or, Bool.not_eq_true] at number
    exact number.1
  by_cases name : isNameChar c = true
  · rw [if_pos name, wordNext] at taken
    by_cases quoted : prefixesLiteral c rest = true
    · rw [if_pos quoted] at taken
      obtain ⟨width, closed, rfl⟩ := literalTaken taken
      exact .prefixed name digit quoted closed
    · rw [if_neg quoted] at taken
      cases taken
      exact .name name digit (by simpa using quoted)
  rw [if_neg name] at taken
  by_cases opening : isOpening c = true
  · rw [if_pos opening] at taken
    cases taken
    exact .opening opening
  rw [if_neg opening] at taken
  by_cases closing : isClosing c = true
  · rw [if_pos closing, closingNext] at taken
    cases brackets : st.brackets with
    | nil => simp [brackets] at taken
    | cons innermost outer =>
      simp only [brackets] at taken
      split at taken <;> cases taken
      exact .closing closing brackets (by assumption)
  rw [if_neg closing] at taken
  cases taken
  refine .mark ?_ (by simpa using number)
  simp [isMark, blank, lineBreak, hash, backslash, quote, digit, name, opening, closing]

/- The cases exclude each other, so each of them is what the tokenizer does. -/
theorem nextCut {st : State} {offset : Nat} {c : Char} {rest : List Char} {found : Next}
    (cut : Cut st offset c rest found) : next st offset c rest = .ok found := by
  rw [nextSteps]
  cases cut with
  | blank first => rw [if_pos first]
  | lineBreak first =>
    simp only [isBreak, Bool.or_eq_true, beq_iff_eq] at first
    rcases first with rfl | rfl <;> rfl
  | comment first =>
    subst first
    rfl
  | continuation first behind =>
    subst first
    simp [behind, isBlank, isBreak]
  | @literal width first closed =>
    have taken : literalNext st .plain offset [] (c :: rest) =
        .ok ⟨.string, width - 1, st.withContent⟩ := by
      simp [literalNext, byteLengthNil, closed, Except.map]
    simp only [isQuote, Bool.or_eq_true, beq_iff_eq] at first
    rcases first with rfl | rfl <;> exact taken
  | number first =>
    simp only [startsNumber, Bool.or_eq_true, Bool.and_eq_true, beq_iff_eq] at first
    rcases first with digit | ⟨rfl, behind⟩
    · have apart := nameApart (digitName digit)
      simp [apart, startsNumber, digit]
    · simp [startsNumber, behind, isBlank, isBreak, isQuote]
  | prefixed first word quoted closed =>
    have apart := nameApart first
    have point : startsNumber c rest = false := by
      simp [startsNumber, word, nameOther first (by decide : isNameChar '.' = false)]
    simp [apart, point, first, wordNext, quoted, literalNext, closed, Except.map]
  | name first word alone =>
    have apart := nameApart first
    have point : startsNumber c rest = false := by
      simp [startsNumber, word, nameOther first (by decide : isNameChar '.' = false)]
    simp [apart, point, first, wordNext, alone]
  | opening first =>
    simp only [isOpening, Bool.or_eq_true, beq_iff_eq] at first
    rcases first with (rfl | rfl) | rfl <;> rfl
  | @closing opening opened outer first brackets closes =>
    have taken : closingNext st offset c = .ok ⟨.op, 0, ⟨outer, true⟩⟩ := by
      simp [closingNext, brackets, closes]
    simp only [isClosing, Bool.or_eq_true, beq_iff_eq] at first
    rcases first with (rfl | rfl) | rfl <;> exact taken
  | mark first alone =>
    simp only [isMark, Bool.not_eq_true', Bool.or_eq_false_iff] at first
    obtain ⟨⟨⟨⟨⟨⟨⟨⟨blank, lineBreak⟩, hash⟩, backslash⟩, quote⟩, digit⟩, name⟩, opening⟩, closing⟩ :=
      first
    simp only [beq_eq_false_iff_ne] at hash backslash
    simp [blank, lineBreak, hash, backslash, quote, alone, name, opening, closing]

end CommentStrip.Python
