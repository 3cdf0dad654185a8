import CommentStrip.CStyle.Classify
import CommentStrip.Proofs.Text.Seam

/-! The pieces of a C-style text that are not plain code, by their form alone. A form holds of a
piece and of the text behind it, and at every place there is at most one such piece. -/
namespace CommentStrip.CStyle
open Unicode Text

inductive QuotedRest (quote : Char) : List Char → Prop where
  | close : QuotedRest quote [quote]
  | pair {c rest} (later : QuotedRest quote rest) : QuotedRest quote ('\\' :: c :: rest)
  | plain {c rest} (other : c ≠ quote) (normal : c ≠ '\\') (later : QuotedRest quote rest) :
      QuotedRest quote (c :: rest)

inductive BracketRest : List Char → Prop where
  | close : BracketRest [']']
  | pair {c rest} (line : c ≠ '\n') (later : BracketRest rest) : BracketRest ('\\' :: c :: rest)
  | plain {c rest} (other : c ≠ ']') (normal : c ≠ '\\') (line : c ≠ '\n')
      (later : BracketRest rest) : BracketRest (c :: rest)

inductive RegexRest : List Char → Prop where
  | close : RegexRest ['/']
  | pair {c rest} (line : c ≠ '\n') (later : RegexRest rest) : RegexRest ('\\' :: c :: rest)
  | brackets {inner rest} (closed : BracketRest inner) (later : RegexRest rest) :
      RegexRest ('[' :: (inner ++ rest))
  | plain {c rest} (other : c ≠ '/') (normal : c ≠ '\\') (outside : c ≠ '[') (line : c ≠ '\n')
      (later : RegexRest rest) : RegexRest (c :: rest)

/- In `inner` and `stop` behind it, `stop` occurs only at the end. -/
def EndsFirst (stop inner : List Char) : Prop :=
  ∀ front back, inner ++ stop = front ++ stop ++ back → back = []

structure Line (inner rest : List Char) : Prop where
  within : ∀ c ∈ inner, isBreak c = false
  whole : ∀ c, rest.head? = some c → isBreak c = true

inductive Lexeme : Branch → (taken rest : List Char) → Prop where
  | singleQuoted {body rest} (closed : QuotedRest '\'' body) :
      Lexeme .singleQuoted ('\'' :: body) rest
  | doubleQuoted {body rest} (closed : QuotedRest '"' body) :
      Lexeme .doubleQuoted ('"' :: body) rest
  | templateLiteral {body rest} (closed : QuotedRest '\x60' body) :
      Lexeme .templateLiteral ('\x60' :: body) rest
  | cssUrl {inner rest} (filled : inner ≠ []) (plain : ')' ∉ inner) :
      Lexeme .cssUrl ("url(".toList ++ (inner ++ [')'])) rest
  | regexLiteral {body flags rest} (closed : RegexRest body) (filled : body.head? ≠ some '/')
      (code : body.head? ≠ some '*') (letters : ∀ c ∈ flags, c ∈ "dgimsuvy".toList)
      (longest : ∀ c, rest.head? = some c → c ∉ "dgimsuvy".toList) :
      Lexeme .regexLiteral ('/' :: (body ++ flags)) rest
  | blockComment {inner rest} (first : EndsFirst ['*', '/'] inner) :
      Lexeme .blockComment (['/', '*'] ++ (inner ++ ['*', '/'])) rest
  | lineComment {inner rest} (line : Line inner rest) :
      Lexeme .lineComment (['/', '/'] ++ inner) rest
  | hashComment {inner rest} (line : Line inner rest) : Lexeme .hashComment ('#' :: inner) rest

/- Reading as far as `extent` says is taking a piece of this form. -/
def Takes (extent : List Char → Option Nat) (form : List Char → List Char → Prop) : Prop :=
  ∀ text n, extent text = some n ↔
    ∃ taken rest, text = taken ++ rest ∧ taken.length = n ∧ form taken rest

theorem notBackslash {c : Char} {rest : List Char} (notLast : c = '\\' → rest = [] → False)
    (notPair : ∀ d behind, c = '\\' → rest = d :: behind → False) : c ≠ '\\' := by
  intro same
  cases rest with
  | nil => exact notLast same rfl
  | cons d behind => exact notPair d behind same rfl

theorem quoteTailPlain (quote : Char) {c : Char} (normal : c ≠ '\\') (rest : List Char) :
    quoteTail quote (c :: rest) =
      if c = quote then some 1 else (quoteTail quote rest).map (· + 1) := by
  rw [quoteTail]
  · intro same
    subst same
    exact absurd rfl normal
  · intro d behind same
    subst same
    exact absurd rfl normal

theorem quoteTailTakes {quote : Char} (plain : quote ≠ '\\') :
    Takes (quoteTail quote) fun taken _ => QuotedRest quote taken := by
  intro text n
  constructor
  · intro found
    fun_induction quoteTail quote text generalizing n with
    | case1 => cases found
    | case2 => cases found
    | case3 c rest ih =>
      obtain ⟨m, later, rfl⟩ := Option.map_eq_some_iff.mp found
      obtain ⟨taken, behind, rfl, rfl, closed⟩ := ih m later
      exact ⟨'\\' :: c :: taken, behind, rfl, rfl, .pair closed⟩
    | case4 rest notLast notPair =>
      cases found
      exact ⟨[quote], rest, rfl, rfl, .close⟩
    | case5 c rest notLast notPair other ih =>
      have normal := notBackslash notLast notPair
      obtain ⟨m, later, rfl⟩ := Option.map_eq_some_iff.mp found
      obtain ⟨taken, behind, rfl, rfl, closed⟩ := ih m later
      exact ⟨c :: taken, behind, rfl, rfl, .plain other normal closed⟩
  · intro parts
    obtain ⟨taken, rest, rfl, rfl, closed⟩ := parts
    induction closed with
    | close => exact (quoteTailPlain quote plain rest).trans (if_pos rfl)
    | @pair c body later ih =>
      simp only [List.cons_append, quoteTail, ih, Option.map_some, List.length_cons]
    | @plain c body other normal later ih =>
      rw [List.cons_append, quoteTailPlain quote normal, if_neg other, ih]
      rfl

theorem regexTailPlain (inBrackets : Bool) {c : Char} (normal : c ≠ '\\') (line : c ≠ '\n')
    (rest : List Char) :
    regexTail inBrackets (c :: rest) =
      if inBrackets then (regexTail (c != ']') rest).map (· + 1)
      else if c = '/' then some 1
      else (regexTail (c == '[') rest).map (· + 1) := by
  rw [regexTail, if_neg line]
  · intro same
    subst same
    exact absurd rfl normal
  · intro d behind same
    subst same
    exact absurd rfl normal

theorem bracketRestReads {inner : List Char} (closed : BracketRest inner) (rest : List Char) :
    regexTail true (inner ++ rest) = (regexTail false rest).map (· + inner.length) := by
  induction closed with
  | close => exact regexTailPlain true (by decide) (by decide) rest
  | @pair c body line later ih =>
    simp only [List.cons_append, regexTail, if_neg line, ih, Option.map_map, List.length_cons]
    congr 1
  | @plain c body other normal line later ih =>
    have inside : (c != ']') = true := by simp [other]
    rw [List.cons_append, regexTailPlain true normal line, if_pos rfl, inside, ih, Option.map_map]
    rfl

theorem regexRestReads {body : List Char} (closed : RegexRest body) (rest : List Char) :
    regexTail false (body ++ rest) = some body.length := by
  induction closed with
  | close => exact regexTailPlain false (by decide) (by decide) rest
  | @pair c body line later ih =>
    simp only [List.cons_append, regexTail, if_neg line, ih, Option.map_some, List.length_cons]
  | @brackets inner body closed later ih =>
    rw [List.cons_append, List.append_assoc, regexTailPlain false (by decide) (by decide),
      if_neg (by simp), if_neg (by decide)]
    show (regexTail true _).map _ = _
    rw [bracketRestReads closed, ih]
    simp [Nat.add_comm]
  | @plain c body other normal outside line later ih =>
    have still : (c == '[') = false := by simp [outside]
    rw [List.cons_append, regexTailPlain false normal line, if_neg (by simp), if_neg other, still,
      ih]
    rfl

def RestFrom (inBrackets : Bool) (taken : List Char) : Prop :=
  if inBrackets then ∃ inner body, taken = inner ++ body ∧ BracketRest inner ∧ RegexRest body
  else RegexRest taken

theorem restPair {inBrackets : Bool} {c : Char} {taken : List Char} (line : c ≠ '\n')
    (later : RestFrom inBrackets taken) : RestFrom inBrackets ('\\' :: c :: taken) := by
  cases inBrackets with
  | true =>
    obtain ⟨inner, body, rfl, closed, more⟩ := later
    exact ⟨'\\' :: c :: inner, body, rfl, .pair line closed, more⟩
  | false => exact RegexRest.pair line later

theorem restInside {c : Char} {taken : List Char} (normal : c ≠ '\\') (line : c ≠ '\n')
    (later : RestFrom (c != ']') taken) : RestFrom true (c :: taken) := by
  by_cases closes : c = ']'
  · subst closes
    exact ⟨[']'], taken, rfl, .close, later⟩
  · have inside : (c != ']') = true := by simp [closes]
    rw [inside] at later
    obtain ⟨inner, body, rfl, closed, more⟩ := later
    exact ⟨c :: inner, body, rfl, .plain closes normal line closed, more⟩

theorem restOutside {c : Char} {taken : List Char} (normal : c ≠ '\\') (line : c ≠ '\n')
    (inner : c ≠ '/') (later : RestFrom (c == '[') taken) : RestFrom false (c :: taken) := by
  by_cases opens : c = '['
  · subst opens
    obtain ⟨members, body, rfl, closed, more⟩ := later
    exact RegexRest.brackets closed more
  · have still : (c == '[') = false := by simp [opens]
    rw [still] at later
    exact RegexRest.plain inner normal opens line later

theorem regexTailSplits {inBrackets : Bool} {text : List Char} {n : Nat}
    (found : regexTail inBrackets text = some n) :
    ∃ taken rest, text = taken ++ rest ∧ taken.length = n ∧ RestFrom inBrackets taken := by
  fun_induction regexTail inBrackets text generalizing n with
  | case1 => cases found
  | case2 => cases found
  | case3 => cases found
  | case4 inBrackets c rest line ih =>
    obtain ⟨m, later, rfl⟩ := Option.map_eq_some_iff.mp found
    obtain ⟨taken, behind, rfl, rfl, more⟩ := ih later
    exact ⟨'\\' :: c :: taken, behind, rfl, rfl, restPair line more⟩
  | case5 => cases found
  | case6 c rest notLast notPair line ih =>
    have normal := notBackslash notLast notPair
    obtain ⟨m, later, rfl⟩ := Option.map_eq_some_iff.mp found
    obtain ⟨taken, behind, rfl, rfl, more⟩ := ih later
    exact ⟨c :: taken, behind, rfl, rfl, restInside normal line more⟩
  | case7 inBrackets rest outside =>
    obtain rfl : inBrackets = false := by simpa using outside
    cases found
    exact ⟨['/'], rest, rfl, rfl, RegexRest.close⟩
  | case8 inBrackets c rest notLast notPair line outside inner ih =>
    obtain rfl : inBrackets = false := by simpa using outside
    have normal := notBackslash notLast notPair
    obtain ⟨m, later, rfl⟩ := Option.map_eq_some_iff.mp found
    obtain ⟨taken, behind, rfl, rfl, more⟩ := ih later
    exact ⟨c :: taken, behind, rfl, rfl, restOutside normal line inner more⟩

theorem regexTailTakes : Takes (regexTail false) fun taken _ => RegexRest taken := by
  intro text n
  constructor
  · exact regexTailSplits
  · intro parts
    obtain ⟨taken, rest, rfl, rfl, closed⟩ := parts
    exact regexRestReads closed rest

theorem endsFirstEmpty (stop : List Char) : EndsFirst stop [] := by
  intro front back same
  have long := congrArg List.length same
  simp only [List.nil_append, List.length_append] at long
  exact List.length_eq_zero_iff.mp (by omega)

theorem endsFirstCons {stop inner behind : List Char} {c : Char}
    (other : startsWith stop (c :: (inner ++ stop ++ behind)) = false)
    (later : EndsFirst stop inner) : EndsFirst stop (c :: inner) := by
  intro front back same
  cases front with
  | nil =>
    have starts : startsWith stop (c :: (inner ++ stop ++ behind)) = true := by
      refine startsWithIff.mpr ⟨back ++ behind, ?_⟩
      rw [← List.append_assoc, ← List.nil_append stop, ← same]
      simp
    rw [other] at starts
    cases starts
  | cons d front =>
    simp only [List.cons_append, List.cons.injEq] at same
    exact later front back same.2

theorem endsFirstLater {stop inner : List Char} {c : Char} (first : EndsFirst stop (c :: inner)) :
    EndsFirst stop inner := by
  intro front back same
  exact first (c :: front) back (by simp [same])

theorem endsFirstNot {stop inner : List Char} {c : Char} (first : EndsFirst stop (c :: inner))
    (behind : List Char) : startsWith stop (c :: (inner ++ stop ++ behind)) = false := by
  rw [Bool.eq_false_iff]
  intro starts
  have short : stop.length ≤ (c :: (inner ++ stop)).length := by
    simp only [List.length_cons, List.length_append]
    omega
  have inside : startsWith stop (c :: (inner ++ stop)) = true := by
    rw [← startsWithInside stop short behind]
    simpa using starts
  obtain ⟨back, same⟩ := startsWithIff.mp inside
  obtain rfl := first [] back (by simpa using same)
  have long := congrArg List.length same
  simp only [List.length_cons, List.length_append, List.length_nil] at long
  omega

theorem throughTakes {stop : List Char} (filled : stop ≠ []) :
    Takes (through stop) fun taken _ => ∃ inner, taken = inner ++ stop ∧ EndsFirst stop inner := by
  intro text n
  constructor
  · intro found
    induction text generalizing n with
    | nil =>
      have bound := throughLength found
      exact absurd (List.length_eq_zero_iff.mp (Nat.le_zero.mp (Nat.le_trans bound.1 bound.2)))
        filled
    | cons c rest ih =>
      cases starts : startsWith stop (c :: rest) with
      | true =>
        rw [throughHere starts] at found
        cases found
        obtain ⟨behind, same⟩ := startsWithIff.mp starts
        exact ⟨stop, behind, same, rfl, [], rfl, endsFirstEmpty stop⟩
      | false =>
        rw [throughLater starts] at found
        obtain ⟨m, later, rfl⟩ := Option.map_eq_some_iff.mp found
        obtain ⟨taken, behind, rfl, rfl, inner, rfl, first⟩ := ih m later
        exact ⟨c :: (inner ++ stop), behind, rfl, rfl, c :: inner, rfl, endsFirstCons starts first⟩
  · intro parts
    obtain ⟨taken, rest, rfl, rfl, inner, rfl, first⟩ := parts
    induction inner with
    | nil => exact throughHere (startsWithIff.mpr ⟨rest, rfl⟩)
    | cons c inner ih =>
      show through stop (c :: (inner ++ stop ++ rest)) = _
      rw [throughLater (endsFirstNot first rest), ih (endsFirstLater first)]
      rfl

theorem runTakes (set : Char → Bool) :
    Takes (fun text => some (text.takeWhile set).length) fun taken rest =>
      (∀ c ∈ taken, set c = true) ∧ ∀ c, rest.head? = some c → set c = false := by
  intro text n
  constructor
  · intro found
    cases found
    refine ⟨text.takeWhile set, text.dropWhile set, (List.takeWhile_append_dropWhile ..).symm, rfl,
      ?_, ?_⟩
    · exact List.all_eq_true.mp (List.all_takeWhile ..)
    · intro c first
      have fails := List.head?_dropWhile_not set text
      rw [first] at fails
      simpa using fails
  · intro parts
    obtain ⟨taken, rest, rfl, rfl, within, whole⟩ := parts
    exact congrArg (some ∘ List.length) (takeWhileExact within whole)

theorem lineTakes : Takes (fun text => some (toLineEnd text)) Line := by
  intro text n
  refine (runTakes (fun c => !isBreak c) text n).trans ?_
  constructor
  · intro parts
    obtain ⟨taken, rest, same, long, within, whole⟩ := parts
    exact ⟨taken, rest, same, long, by simpa using within, by simpa using whole⟩
  · intro parts
    obtain ⟨taken, rest, same, long, line⟩ := parts
    exact ⟨taken, rest, same, long, by simpa using line.within, by simpa using line.whole⟩

theorem lineReads {opening : List Char} (code : ∀ c ∈ opening, isBreak c = false)
    (text : List Char) :
    (if startsWith opening text then some (toLineEnd text) else none) =
      (after opening text).bind fun rest => (some (toLineEnd rest)).map (· + opening.length) := by
  rw [startsWith]
  cases opened : after opening text with
  | none => rfl
  | some rest =>
    obtain rfl := afterSome.mp opened
    have whole : toLineEnd (opening ++ rest) = toLineEnd rest + opening.length := by
      rw [toLineEnd, List.takeWhile_append_of_pos (by simpa using code), List.length_append,
        Nat.add_comm]
      rfl
    simp [whole]

theorem behindTakes {opening : List Char} {inner extent : List Char → Option Nat}
    {form : List Char → List Char → Prop} (takes : Takes inner form)
    (reads : ∀ text, extent text =
      (after opening text).bind fun rest => (inner rest).map (· + opening.length)) :
    Takes extent fun taken rest => ∃ body, taken = opening ++ body ∧ form body rest := by
  intro text n
  rw [reads]
  constructor
  · intro found
    obtain ⟨inside, opened, later⟩ := Option.bind_eq_some_iff.mp found
    obtain ⟨m, reached, rfl⟩ := Option.map_eq_some_iff.mp later
    obtain rfl := afterSome.mp opened
    obtain ⟨body, rest, rfl, rfl, holds⟩ := (takes inside m).mp reached
    exact ⟨opening ++ body, rest, by simp, by simp [Nat.add_comm], body, rfl, holds⟩
  · intro parts
    obtain ⟨taken, rest, rfl, rfl, body, rfl, holds⟩ := parts
    have opened : after opening (opening ++ body ++ rest) = some (body ++ rest) :=
      afterSome.mpr (by simp)
    have reached := (takes (body ++ rest) body.length).mpr ⟨body, rest, rfl, rfl, holds⟩
    rw [opened, Option.bind_some, reached]
    simp [Nat.add_comm]

theorem takesCongr {extent : List Char → Option Nat} {form other : List Char → List Char → Prop}
    (takes : Takes extent form) (same : ∀ taken rest, form taken rest ↔ other taken rest) :
    Takes extent other := by
  intro text n
  simp only [takes text n, same]

theorem quotedTakes {quote : Char} (plain : quote ≠ '\\') :
    Takes (quoted quote) fun taken _ => ∃ body, taken = [quote] ++ body ∧ QuotedRest quote body :=
  behindTakes (quoteTailTakes plain) (by
    intro text
    cases text with
    | nil => rfl
    | cons c rest => by_cases same : quote = c <;> simp [quoted, after, same, eq_comm])

def urlTail (inside : List Char) : Option Nat :=
  let body := inside.takeWhile (· != ')')
  if body.isEmpty ∨ body.length = inside.length then none else some (body.length + 1)

theorem urlTailTakes : Takes urlTail fun taken _ =>
    ∃ inner, taken = inner ++ [')'] ∧ inner ≠ [] ∧ ')' ∉ inner := by
  intro text n
  constructor
  · intro found
    obtain ⟨inner, rest, rfl, -, within, whole⟩ := (runTakes (· != ')') text _).mp rfl
    simp only [urlTail, takeWhileExact within whole] at found
    by_cases bad : inner.isEmpty = true ∨ inner.length = (inner ++ rest).length
    · rw [if_pos bad] at found
      cases found
    · rw [if_neg bad] at found
      cases found
      rw [not_or] at bad
      cases rest with
      | nil => exact absurd (by simp) bad.2
      | cons c rest =>
        obtain rfl : c = ')' := by simpa using whole c rfl
        refine ⟨inner ++ [')'], rest, by simp, by simp, inner, rfl, by simpa using bad.1, ?_⟩
        intro member
        exact absurd (within ')' member) (by decide)
  · intro parts
    obtain ⟨taken, rest, rfl, rfl, inner, rfl, filled, plain⟩ := parts
    have run : (inner ++ ')' :: rest).takeWhile (· != ')') = inner := by
      apply takeWhileExact
      · intro c member
        rw [bne_iff_ne]
        intro same
        subst same
        exact plain member
      · intro c same
        cases same
        rfl
    rw [List.append_assoc, List.singleton_append, urlTail, run, if_neg (by simp [filled])]
    simp

theorem regexRestLast {body : List Char} (closed : RegexRest body) :
    ∃ front, body = front ++ ['/'] := by
  induction closed with
  | close => exact ⟨[], rfl⟩
  | pair line later ih =>
    obtain ⟨front, rfl⟩ := ih
    exact ⟨'\\' :: _ :: front, rfl⟩
  | @brackets inner rest closed later ih =>
    obtain ⟨front, rfl⟩ := ih
    exact ⟨'[' :: (inner ++ front), by simp⟩
  | plain other normal outside line later ih =>
    obtain ⟨front, rfl⟩ := ih
    exact ⟨_ :: front, rfl⟩

theorem regexRestHead {body : List Char} (closed : RegexRest body) (rest : List Char) :
    (body ++ rest).head? = body.head? := by
  cases closed <;> rfl

def regexInside (text : List Char) : Option Nat :=
  if text.head? = some '/' ∨ text.head? = some '*' then none
  else (regexTail false text).map fun body =>
    body + ((text.drop body).takeWhile isRegexFlag).length

theorem regexInsideTakes : Takes regexInside fun taken rest =>
    ∃ body flags, taken = body ++ flags ∧ RegexRest body ∧ body.head? ≠ some '/' ∧
      body.head? ≠ some '*' ∧ (∀ c ∈ flags, isRegexFlag c = true) ∧
      ∀ c, rest.head? = some c → isRegexFlag c = false := by
  intro text n
  constructor
  · intro found
    by_cases bad : text.head? = some '/' ∨ text.head? = some '*'
    · rw [regexInside, if_pos bad] at found
      cases found
    · rw [regexInside, if_neg bad] at found
      rw [not_or] at bad
      obtain ⟨m, reached, rfl⟩ := Option.map_eq_some_iff.mp found
      obtain ⟨body, behind, rfl, rfl, closed⟩ := (regexTailTakes text m).mp reached
      obtain ⟨flags, rest, rfl, -, letters, longest⟩ := (runTakes isRegexFlag behind _).mp rfl
      rw [regexRestHead closed] at bad
      refine ⟨body ++ flags, rest, by simp, ?_, body, flags, rfl, closed, bad.1, bad.2, letters,
        longest⟩
      rw [List.drop_left, takeWhileExact letters longest, List.length_append]
  · intro parts
    obtain ⟨taken, rest, rfl, rfl, body, flags, rfl, closed, filled, code, letters, longest⟩ := parts
    rw [List.append_assoc, regexInside, regexRestHead closed, if_neg (by simp [filled, code]),
      regexRestReads closed, Option.map_some, List.drop_left, takeWhileExact letters longest,
      List.length_append]

theorem regexReads (text : List Char) :
    regexLiteral text = (after ['/'] text).bind fun rest => (regexInside rest).map (· + 1) := by
  cases text with
  | nil => rfl
  | cons d text =>
    by_cases slash : d = '/'
    · subst slash
      cases text with
      | nil => rfl
      | cons c rest =>
        show _ = (regexInside (c :: rest)).map (· + 1)
        by_cases bad : c = '/' ∨ c = '*'
        · rw [regexLiteral, if_pos bad, regexInside, if_pos (by simpa using bad)]
          rfl
        · rw [regexLiteral, if_neg bad, regexInside, if_neg (by simpa using bad)]
          cases regexTail false (c :: rest) <;> rfl
    · rw [after, if_neg (Ne.symm slash), regexLiteral]
      · rfl
      · intro c rest same
        cases same
        exact slash rfl

theorem cssUrlReads (text : List Char) :
    cssUrl text = (after "url(".toList text).bind fun rest => (urlTail rest).map (· + 4) := by
  simp only [cssUrl, urlTail, bind]
  congr 1
  funext rest
  split <;> rfl

theorem blockReads (text : List Char) :
    blockComment text =
      (after ['/', '*'] text).bind fun rest => (through ['*', '/'] rest).map (· + 2) := by
  simp only [blockComment, bind]
  congr 1
  funext rest
  cases through ['*', '/'] rest <;> rfl

theorem lexemeTakes {branch : Branch} (other : branch ≠ .jsxComment) :
    Takes branch.extent (Lexeme branch) := by
  cases branch with
  | jsxComment => exact absurd rfl other
  | singleQuoted =>
    refine takesCongr (quotedTakes (by decide)) fun taken rest => ⟨?_, ?_⟩
    · intro parts
      obtain ⟨body, rfl, closed⟩ := parts
      exact .singleQuoted closed
    · intro lexeme
      cases lexeme with
      | singleQuoted closed => exact ⟨_, rfl, closed⟩
  | doubleQuoted =>
    refine takesCongr (quotedTakes (by decide)) fun taken rest => ⟨?_, ?_⟩
    · intro parts
      obtain ⟨body, rfl, closed⟩ := parts
      exact .doubleQuoted closed
    · intro lexeme
      cases lexeme with
      | doubleQuoted closed => exact ⟨_, rfl, closed⟩
  | templateLiteral =>
    refine takesCongr (quotedTakes (by decide)) fun taken rest => ⟨?_, ?_⟩
    · intro parts
      obtain ⟨body, rfl, closed⟩ := parts
      exact .templateLiteral closed
    · intro lexeme
      cases lexeme with
      | templateLiteral closed => exact ⟨_, rfl, closed⟩
  | cssUrl =>
    refine takesCongr (behindTakes urlTailTakes cssUrlReads) fun taken rest => ⟨?_, ?_⟩
    · intro parts
      obtain ⟨body, rfl, inner, rfl, filled, plain⟩ := parts
      exact .cssUrl filled plain
    · intro lexeme
      cases lexeme with
      | cssUrl filled plain => exact ⟨_, rfl, _, rfl, filled, plain⟩
  | regexLiteral =>
    have reads : ∀ text, regexLiteral text =
        (after ['/'] text).bind fun rest => (regexInside rest).map (· + 1) := regexReads
    refine takesCongr (behindTakes regexInsideTakes reads) fun taken rest => ⟨?_, ?_⟩
    · intro parts
      obtain ⟨body, rfl, inner, flags, rfl, closed, filled, code, letters, longest⟩ := parts
      show Lexeme .regexLiteral ('/' :: (inner ++ flags)) rest
      exact .regexLiteral closed filled code (by simpa [isRegexFlag] using letters)
        (by simpa [isRegexFlag] using longest)
    · intro lexeme
      cases lexeme with
      | regexLiteral closed filled code letters longest =>
        exact ⟨_, rfl, _, _, rfl, closed, filled, code, by simpa [isRegexFlag] using letters,
          by simpa [isRegexFlag] using longest⟩
  | blockComment =>
    refine takesCongr (behindTakes (throughTakes (by simp)) blockReads) fun taken rest => ⟨?_, ?_⟩
    · intro parts
      obtain ⟨body, rfl, inner, rfl, first⟩ := parts
      exact .blockComment first
    · intro lexeme
      cases lexeme with
      | blockComment first => exact ⟨_, rfl, _, rfl, first⟩
  | lineComment =>
    have code : ∀ c ∈ ['/', '/'], isBreak c = false := by simp [isBreak]
    refine takesCongr (behindTakes lineTakes (lineReads code)) fun taken rest => ⟨?_, ?_⟩
    · intro parts
      obtain ⟨body, rfl, line⟩ := parts
      exact .lineComment line
    · intro lexeme
      cases lexeme with
      | lineComment line => exact ⟨_, rfl, line⟩
  | hashComment =>
    have code : ∀ c ∈ ['#'], isBreak c = false := by simp [isBreak]
    refine takesCongr (behindTakes lineTakes (lineReads code)) fun taken rest => ⟨?_, ?_⟩
    · intro parts
      obtain ⟨body, rfl, line⟩ := parts
      exact .hashComment line
    · intro lexeme
      cases lexeme with
      | hashComment line => exact ⟨_, rfl, line⟩

end CommentStrip.CStyle
