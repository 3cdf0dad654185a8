import CommentStrip.Proofs.Python.PlainLiteral
import CommentStrip.Proofs.Python.Relex

/-! What the line scan makes of one token. Outside comments and line breaks it passes a token as
a whole, and the quotes are as closed behind it as in front of it. -/
namespace CommentStrip.Python
open Unicode Text

def isPlain (c : Char) : Bool := !isBreak c && !isQuote c && c != '#'

theorem plainIff {c : Char} :
    isPlain c = true ↔ isBreak c = false ∧ isQuote c = false ∧ c ≠ '#' := by
  simp [isPlain, and_assoc]

theorem plainTurn {c : Char} (plain : isPlain c = true) (rest : List Char) :
    QuoteState.initial.turn? (c :: rest) = none := by
  have other := (plainIff.mp plain).2.1
  simp only [isQuote, Bool.or_eq_false_iff, beq_eq_false_iff_ne] at other
  simp [QuoteState.initial, QuoteState.turn?, TripleQuote.delimiter, TripleQuote.mark, startsWith,
    after, Ne.symm other.1, Ne.symm other.2]

theorem plainInLine {c : Char} (plain : isPlain c = true) : c ≠ '\n' := by
  intro feed
  subst feed
  cases plain

theorem plainPass {c : Char} (plain : isPlain c = true) :
    QuoteState.initial.pass c = .initial := by
  have other := (plainIff.mp plain).2.1
  simp only [isQuote, Bool.or_eq_false_iff, beq_eq_false_iff_ne] at other
  simp [QuoteState.initial, QuoteState.pass, other]

theorem plainReaches {s : List Char} (plain : ∀ c ∈ s, isPlain c = true) {t x : List Char}
    (later : Reaches .initial t x .initial) : Reaches .initial (s ++ t) x .initial := by
  induction s with
  | nil => exact later
  | cons c s ih =>
    have here := plain c List.mem_cons_self
    have apart := plainIff.mp here
    refine .char (plainInLine here) (plainTurn here _) (fun hash => apart.2.2 hash.1) ?_
    rw [plainPass here]
    exact ih fun d member => plain d (List.mem_cons_of_mem c member)

theorem blankPlain {c : Char} (blank : isBlank c = true) : isPlain c = true := by
  simp only [isBlank, Bool.or_eq_true, beq_iff_eq] at blank
  rcases blank with (rfl | rfl) | rfl <;> rfl

theorem flowPlain {s : List Char} (plain : ∀ c ∈ s, isPlain c = true) (x : List Char)
    (keep : KeepSet) (first : Bool) (passed : List Char) :
    flow keep first .initial passed (s ++ x) = flow keep first .initial (passed ++ s) x := by
  induction s generalizing passed with
  | nil => simp
  | cons c s ih =>
    have here := plain c List.mem_cons_self
    have apart := plainIff.mp here
    rw [List.cons_append,
      flowChar (plainInLine here) (plainTurn here _) (fun hash => apart.2.2 hash.1),
      plainPass here, ih (fun d member => plain d (List.mem_cons_of_mem c member)),
      List.append_assoc]
    rfl

structure Solid (t x : List Char) : Prop where
  reaches : Reaches .initial t x .initial
  ends : ∃ c, t.getLast? = some c ∧ isBlank c = false ∧ isBreak c = false

theorem solidPlain {t : List Char} (filled : t ≠ [])
    (plain : ∀ c ∈ t, isPlain c = true ∧ isBlank c = false) (x : List Char) : Solid t x := by
  constructor
  · have all := plainReaches (fun c member => (plain c member).1) (Reaches.here (x := x))
    rwa [List.append_nil] at all
  · refine ⟨t.getLast filled, List.getLast?_eq_some_getLast filled, ?_, ?_⟩
    · exact (plain _ (List.getLast_mem filled)).2
    · exact (plainIff.mp (plain _ (List.getLast_mem filled)).1).1

theorem namePlain {c : Char} (name : isNameChar c = true) :
    isPlain c = true ∧ isBlank c = false := by
  have apart := nameApart name
  exact ⟨plainIff.mpr ⟨apart.2.1, apart.2.2.2.2.1, apart.2.2.1⟩, apart.1⟩

theorem numberPlain {hex : Bool} {previous c : Char} (number : numberChar hex previous c = true) :
    isPlain c = true ∧ isBlank c = false := by
  simp only [numberChar, Bool.or_eq_true, Bool.and_eq_true, beq_iff_eq] at number
  rcases number with ((letter | rfl) | rfl) | ⟨⟨rfl | rfl, -⟩, -⟩
  · exact namePlain (by simp [isNameChar, letter])
  all_goals decide

theorem numberTailEach {p : Char → Prop}
    (each : ∀ hex previous c, numberChar hex previous c = true → p c) {hex : Bool} {previous : Char}
    {s x : List Char} (whole : numberTail hex previous (s ++ x) = s.length) : ∀ c ∈ s, p c := by
  induction s generalizing previous with
  | nil => exact List.forall_mem_nil p
  | cons c s ih =>
    rw [List.cons_append, numberTailCons] at whole
    cases number : numberChar hex previous c with
    | true =>
      simp only [number, if_true, List.length_cons, Nat.add_right_cancel_iff] at whole
      exact List.forall_mem_cons.mpr ⟨each hex previous c number, ih whole⟩
    | false => simp [number] at whole

theorem numberTailPlain {hex : Bool} {previous : Char} {s x : List Char}
    (whole : numberTail hex previous (s ++ x) = s.length) :
    ∀ c ∈ s, isPlain c = true ∧ isBlank c = false :=
  numberTailEach (fun _ _ _ => numberPlain) whole

def prefixOf (t : Token) : List Char := t.text.takeWhile fun c => !isQuote c

def isFormatted (t : Token) : Bool := (prefixOf t).any fun c => c == 'f' || c == 'F'

def isLong (t : Token) : Bool :=
  match t.text.drop (prefixOf t).length with
  | quote :: rest => isTriple quote (quote :: rest)
  | [] => false

/- A literal without replacement fields, and on one line unless three quotes open it. -/
def Simple (t : Token) : Prop :=
  t.kind = .string → isFormatted t = false ∧ (isLong t = false → '\n' ∉ t.text)

theorem prefixSplit {word rest : List Char} {quote : Char}
    (plain : ∀ c ∈ word, isQuote c = false) (isOne : isQuote quote = true) :
    (word ++ quote :: rest).takeWhile (fun c => !isQuote c) = word := by
  rw [List.takeWhile_append_of_pos (by simpa using plain),
    List.takeWhile_cons_of_neg (by simp [isOne]), List.append_nil]

theorem literalParts {word s : List Char} {quote : Char} (kind : TokenKind)
    (letters : ∀ c ∈ word, isNameChar c = true) (isOne : isQuote quote = true) :
    prefixOf ⟨kind, word ++ quote :: s⟩ = word ∧
      isFormatted ⟨kind, word ++ quote :: s⟩ = (Affix.ofWord word).formatted ∧
      isLong ⟨kind, word ++ quote :: s⟩ = isTriple quote (quote :: s) := by
  have noQuote : ∀ c ∈ word, isQuote c = false :=
    fun c member => (plainIff.mp (namePlain (letters c member)).1).2.1
  have front : prefixOf ⟨kind, word ++ quote :: s⟩ = word := prefixSplit noQuote isOne
  refine ⟨front, ?_, ?_⟩
  · rw [isFormatted, front]
    rfl
  · simp only [isLong, front, List.drop_left]

theorem literalPassed {word s x : List Char} {quote : Char}
    (letters : ∀ c ∈ word, isNameChar c = true) (isOne : isQuote quote = true)
    (opens : Opens quote s x) (onLine : isTriple quote (quote :: s) = false → '\n' ∉ s) :
    Reaches .initial (word ++ quote :: s) x .initial ∧
      (word ++ quote :: s).getLast? = some quote := by
  constructor
  · exact plainReaches (fun c member => (namePlain (letters c member)).1)
      (opensReaches isOne opens onLine)
  · rw [List.getLast?_append, List.getLast?_cons, opensLast opens]
    rfl

theorem prefixedSplit {c : Char} {s x : List Char} {offset width : Nat}
    (quoted : prefixesLiteral c (s ++ x) = true)
    (closed : literalWidth (.ofWord (wordOf c (s ++ x))) offset
      (offset + byteLength (wordOf c (s ++ x))) (behindWord (s ++ x)) = .ok width)
    (whole : (wordOf c (s ++ x)).length + width - 1 = s.length) :
    ∃ word quote rest, s = word ++ quote :: rest ∧ (∀ d ∈ word, isNameChar d = true) ∧
      isStringPrefix (c :: word) = true ∧ isQuote quote = true ∧
      literalWidth (.ofWord (c :: word)) offset (offset + byteLength (c :: word))
        (quote :: (rest ++ x)) = .ok (rest.length + 1) := by
  have positive : 1 ≤ width := by
    cases behind : behindWord (s ++ x) with
    | nil => simp [prefixesLiteral, behind] at quoted
    | cons d later =>
      rw [behind] at closed
      exact literalPositive closed
  have letters : ∀ d ∈ (s ++ x).takeWhile isNameChar, isNameChar d = true :=
    List.all_eq_true.mp List.all_takeWhile
  have front : (s ++ x).takeWhile isNameChar <+: s ++ x := List.takeWhile_prefix isNameChar
  simp only [prefixesLiteral, behindWord, wordOf, List.length_cons] at quoted closed whole
  generalize (s ++ x).takeWhile isNameChar = word at quoted closed whole letters front
  obtain ⟨tail, rfl⟩ : word <+: s :=
    List.prefix_of_prefix_length_le front (List.prefix_append s x) (by omega)
  rw [List.append_assoc, List.drop_left] at quoted closed
  cases tail with
  | nil =>
    rw [List.append_nil] at whole
    omega
  | cons quote rest =>
    simp only [List.length_append, List.length_cons] at whole
    obtain rfl : width = rest.length + 1 := by omega
    simp only [List.cons_append, List.head?_cons, Option.any_some, Bool.and_eq_true] at quoted
    exact ⟨word, quote, rest, rfl, letters, quoted.2, quoted.1, closed⟩

theorem markPlain {c : Char} (mark : isMark c = true) :
    isPlain c = true ∧ isBlank c = false := by
  simp only [isMark, Bool.not_eq_true', Bool.or_eq_false_iff, beq_eq_false_iff_ne] at mark
  exact ⟨plainIff.mpr ⟨mark.1.1.1.1.1.1.1.2, mark.1.1.1.1.2, mark.1.1.1.1.1.1.2⟩,
    mark.1.1.1.1.1.1.1.1⟩

theorem bracketPlain {c : Char} (bracket : isOpening c = true ∨ isClosing c = true) :
    isPlain c = true ∧ isBlank c = false := by
  simp only [isOpening, isClosing, Bool.or_eq_true, beq_iff_eq] at bracket
  rcases bracket with ((rfl | rfl) | rfl) | ((rfl | rfl) | rfl) <;> decide

theorem whitespaceEnds {st : State} {offset : Nat} {c : Char} {s x : List Char} {found : Next}
    (taken : next st offset c (s ++ x) = .ok found) (whole : found.more = s.length)
    (white : found.kind = .whitespace) :
    (∀ d ∈ c :: s, isBlank d = true) ∧ ∀ d, x.head? = some d → isBlank d = false := by
  cases cutNext taken with
  | blank first =>
    refine ⟨?_, takeWhileEnds whole⟩
    intro d member
    rcases List.mem_cons.mp member with rfl | inside
    · exact first
    · rw [← takeWhileAll whole] at inside
      exact List.all_eq_true.mp List.all_takeWhile d inside
  | lineBreak => rcases breakKindBreak st with kind | kind <;> simp [kind] at white
  | _ => simp at white

theorem cutLiteral {st : State} {offset : Nat} {c : Char} {s x : List Char} {found : Next}
    (taken : next st offset c (s ++ x) = .ok found) (whole : found.more = s.length)
    (literal : found.kind = .string) :
    ∃ word quote rest start inside, c :: s = word ++ quote :: rest ∧
      (∀ d ∈ word, isNameChar d = true) ∧ (word ≠ [] → isStringPrefix word = true) ∧
      isQuote quote = true ∧
      literalWidth (.ofWord word) start inside (quote :: (rest ++ x)) = .ok (rest.length + 1) := by
  cases cutNext taken with
  | lineBreak first => rcases breakKindBreak st with same | same <;> simp [same] at literal
  | @literal width first closed =>
    have positive := literalPositive closed
    simp only at whole
    obtain rfl : width = s.length + 1 := by omega
    exact ⟨[], c, s, offset, offset, rfl, by simp, by simp, first, closed⟩
  | prefixed first word quoted closed =>
    obtain ⟨word, quote, rest, rfl, letters, named, isOne, shut⟩ := prefixedSplit quoted closed whole
    exact ⟨c :: word, quote, rest, _, _, rfl, by simpa [first] using letters, fun _ => named, isOne,
      shut⟩
  | _ => cases literal

theorem cutPlain {st : State} {offset : Nat} {c : Char} {s x : List Char} {found : Next}
    (taken : next st offset c (s ++ x) = .ok found) (whole : found.more = s.length)
    (kind : found.kind = .name ∨ found.kind = .number ∨ found.kind = .op) :
    ∀ d ∈ c :: s, isPlain d = true ∧ isBlank d = false := by
  have single : isPlain c = true ∧ isBlank c = false → 0 = s.length →
      ∀ d ∈ c :: s, isPlain d = true ∧ isBlank d = false := by
    intro plain empty
    obtain rfl := List.length_eq_zero_iff.mp empty.symm
    simpa using plain
  cases cutNext taken with
  | blank | comment | continuation | literal | prefixed => simp at kind
  | lineBreak first => rcases breakKindBreak st with same | same <;> simp [same] at kind
  | number first =>
    intro d member
    rcases List.mem_cons.mp member with rfl | inside
    · simp only [startsNumber, Bool.or_eq_true, Bool.and_eq_true, beq_iff_eq] at first
      rcases first with digit | ⟨rfl, -⟩
      · exact namePlain (digitName digit)
      · decide
    · exact numberTailPlain whole d inside
  | name first word alone =>
    simp only at whole
    have run := takeWhileAll whole
    intro d member
    rcases List.mem_cons.mp member with rfl | inside
    · exact namePlain first
    · rw [← run] at inside
      exact namePlain (List.all_eq_true.mp List.all_takeWhile d inside)
  | opening first => exact single (bracketPlain (.inl first)) whole
  | closing first innermost closes => exact single (bracketPlain (.inr first)) whole
  | mark first alone => exact single (markPlain first) whole

theorem cutSolid {st : State} {offset : Nat} {c : Char} {s x : List Char} {found : Next}
    (taken : next st offset c (s ++ x) = .ok found) (whole : found.more = s.length)
    (simple : Simple ⟨found.kind, c :: s⟩)
    (kind : found.kind = .string ∨ found.kind = .name ∨ found.kind = .number ∨ found.kind = .op) :
    Solid (c :: s) x := by
  rcases kind with literal | plain
  · obtain ⟨word, quote, rest, start, inside, parts, letters, -, isOne, closed⟩ :=
      cutLiteral taken whole literal
    rw [parts] at simple ⊢
    obtain ⟨-, formatted, long⟩ := literalParts (s := rest) found.kind letters isOne
    obtain ⟨unformatted, onLine⟩ := simple literal
    rw [formatted] at unformatted
    rw [long] at onLine
    obtain ⟨reaches, last⟩ := literalPassed letters isOne (literalOpens unformatted closed)
      (fun single member => onLine single (by simp [member]))
    refine ⟨reaches, quote, last, ?_⟩
    rcases quoteOne isOne with rfl | rfl <;> decide
  · exact solidPlain (by simp) (cutPlain taken whole plain) x

theorem breakForms {t x : List Char} (width : breakWidth (t ++ x) = t.length) (filled : t ≠ []) :
    t = ['\n'] ∨ t = ['\r', '\n'] ∨ t = ['\r'] ∧ x.head? ≠ some '\n' := by
  cases t with
  | nil => exact absurd rfl filled
  | cons c s =>
    by_cases feed : c = '\n'
    · subst feed
      have one : (1 : Nat) = s.length + 1 := width
      exact .inl (by rw [List.length_eq_zero_iff.mp (show s.length = 0 by omega)])
    by_cases ret : c = '\r'
    · subst ret
      right
      by_cases joined : (s ++ x).head? = some '\n'
      · obtain ⟨rest, same⟩ := List.head?_eq_some_iff.mp joined
        rw [List.cons_append, same] at width
        have two : (2 : Nat) = s.length + 1 := width
        obtain ⟨d, rfl⟩ := List.length_eq_one_iff.mp (show s.length = 1 by omega)
        cases joined
        exact .inl rfl
      · rw [List.cons_append, loneReturn joined, List.length_cons] at width
        obtain rfl := List.length_eq_zero_iff.mp (show s.length = 0 by omega)
        exact .inr ⟨rfl, joined⟩
    · rw [List.cons_append, breakWidth] at width
      · cases width
      · intro rest same
        exact ret (List.cons.inj same).1
      · intro rest same
        exact ret (List.cons.inj same).1
      · intro rest same
        exact feed (List.cons.inj same).1

theorem finishComment (keep : KeepSet) (first : Bool) (passed s terminator : List Char)
    (st : QuoteState) :
    finish keep first passed ('#' :: s) terminator st (some 0) =
      let stays := keeps keep (first && passed.isEmpty) ⟨.comment, '#' :: s⟩
      ⟨(if stays then passed ++ '#' :: s else trimEnd passed) ++ terminator, some stays, st⟩ := by
  have decides : ((passed = [] ∧ 0 = 0 ∧ first = true ∧ startsWith ['#', '!'] ('#' :: s) = true) ∨
      keep.holds (('#' :: s).drop 0) = true) ↔
        keeps keep (first && passed.isEmpty) ⟨.comment, '#' :: s⟩ = true := by
    simp only [keeps, isInterpreterLine, Bool.or_eq_true, Bool.and_eq_true, List.isEmpty_iff,
      List.drop_zero, true_and]
    rw [and_left_comm, and_assoc]
  cases stays : keeps keep (first && passed.isEmpty) ⟨.comment, '#' :: s⟩ with
  | true =>
    rw [finish, if_pos (decides.mpr stays)]
    simp
  | false =>
    rw [finish, if_neg (by rw [decides, stays]; exact Bool.false_ne_true)]
    simp

theorem flowComment {s x : List Char} (within : ∀ c ∈ s, isBreak c = false) (atEnd : AtLineEnd x)
    (keep : KeepSet) (first : Bool) (passed : List Char) :
    flow keep first .initial passed ('#' :: (s ++ x)) =
      let stays := keeps keep (first && passed.isEmpty) ⟨.comment, '#' :: s⟩
      let later := flow keep false .initial [] x
      ((if stays then passed ++ '#' :: s else trimEnd passed) ++ later.1, stays :: later.2) := by
  have inLine : ∀ c ∈ '#' :: s, isBreak c = false := by
    intro c member
    rcases List.mem_cons.mp member with rfl | inside
    · rfl
    · exact within c inside
  obtain ⟨terminator, rest, rfl, empty⟩ := atEnd.cut
  have cut : LineCut ('#' :: s ++ []) terminator rest :=
    empty.behind (fun feed => by cases inLine '\n' feed)
      (fun _ _ last => by cases inLine '\r' (List.mem_of_getLast? last))
  rw [List.append_nil] at cut
  have fed : QuoteState.initial.feedFrom ('#' :: s) = (some 0, .initial) := by
    have turn : QuoteState.initial.turn? ('#' :: s) = none := rfl
    rw [QuoteState.feedFrom, turn]
    rfl
  have unfed : QuoteState.initial.feedFrom [] = (none, .initial) := by rw [QuoteState.feedFrom]
  have here := flowCut cut keep first .initial passed
  have later := flowCut empty keep false .initial []
  simp only [fed, finishComment] at here
  simp only [unfed, finish, List.nil_append, Option.toList_none] at later
  rw [List.append_assoc] at here
  rw [later]
  simpa using here

end CommentStrip.Python
