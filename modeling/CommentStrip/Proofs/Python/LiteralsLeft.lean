import CommentStrip.Proofs.Python.TokenFlow
import CommentStrip.Proofs.Text.Trim

/-! What the line scan leaves of the tokens of a text. It follows the quotes of a literal that
reads like one without fields and that, unless three quotes open it, has no line feed. Where all
literals are of this kind and all comments end their lines, every literal is left as it was. -/
namespace CommentStrip.Python
open Unicode Text

inductive Leaves : (tokens : List Token) → (out : List Char) → Prop where
  | done : Leaves [] []
  | literal {t later out} (literal : t.kind = .string) (rest : Leaves later out) :
      Leaves (t :: later) (t.text ++ out)
  | other {t part later out} (other : t.kind ≠ .string) (front : part <+: t.text)
      (rest : Leaves later out) : Leaves (t :: later) (part ++ out)

def ReadsPlainly (t : Token) : Prop :=
  literalWidth .plain 0 0 (t.text.drop (prefixOf t).length) =
    .ok (t.text.drop (prefixOf t).length).length

/- A literal whose quotes the line scan follows. -/
structure Followed (t : Token) : Prop where
  plainly : isFormatted t = true → ReadsPlainly t
  onLine : isLong t = false → '\n' ∉ t.text

theorem shutsLong {quote : Char} {t x : List Char} {triple : Bool}
    (shut : Shuts quote triple t x) (long : triple = true) : 3 ≤ t.length := by
  induction shut with
  | single => cases long
  | triple => exact Nat.le_refl 3
  | pair alone later ih | both later ih | plain normal lineBreak inside later ih =>
    have behind := ih long
    simp only [List.length_cons]
    omega

theorem shutsBehind {quote : Char} {triple : Bool} {t x : List Char}
    (shut : Shuts quote triple t x) (y : List Char) : Shuts quote triple t y := by
  induction shut with
  | single => exact .single
  | triple => exact .triple
  | @pair triple c t x alone later ih =>
    obtain ⟨d, t, rfl⟩ := List.exists_cons_of_ne_nil (shutsFilled later)
    exact .pair alone ih
  | both later ih => exact .both ih
  | @plain triple c t x normal lineBreak inside later ih =>
    refine .plain normal lineBreak ?_ ih
    intro same
    obtain ⟨long, unclosed⟩ := inside same
    have three := shutsLong later long
    have short : [quote, quote, quote].length ≤ (c :: t).length := by
      simp only [List.length_cons, List.length_nil]
      omega
    refine ⟨long, ?_⟩
    rw [isTriple, ← List.cons_append, startsWithInside _ short] at unclosed ⊢
    exact unclosed

theorem opensBehind {quote : Char} {s x : List Char} (opens : Opens quote s [])
    (inside : isTriple quote (quote :: (s ++ x)) = true → 2 ≤ s.length) : Opens quote s x := by
  cases opens with
  | triple shut => exact .triple (shutsBehind shut x)
  | single alone shut =>
    refine .single ?_ (shutsBehind shut x)
    cases triple : isTriple quote (quote :: (s ++ x)) with
    | false => rfl
    | true =>
      have short : [quote, quote, quote].length ≤ (quote :: s).length := Nat.succ_le_succ (inside triple)
      rw [isTriple, ← List.cons_append, startsWithInside _ short] at alone triple
      rw [alone] at triple
      cases triple

theorem followedPassed {st : State} {offset : Nat} {c : Char} {s x : List Char} {found : Next}
    (taken : next st offset c (s ++ x) = .ok found) (whole : found.more = s.length)
    (literal : found.kind = .string) (followed : Followed ⟨found.kind, c :: s⟩) :
    Reaches .initial (c :: s) x .initial ∧
      ∃ quote, isQuote quote = true ∧ (c :: s).getLast? = some quote := by
  obtain ⟨word, quote, rest, start, inside, parts, letters, -, isOne, closed⟩ :=
    cutLiteral taken whole literal
  rw [parts] at followed ⊢
  obtain ⟨front, formatted, long⟩ := literalParts (s := rest) found.kind letters isOne
  have opens : Opens quote rest x := by
    cases fields : (Affix.ofWord word).formatted with
    | false => exact literalOpens fields closed
    | true =>
      have plainly := followed.plainly (formatted.trans fields)
      simp only [ReadsPlainly, front, List.drop_left, List.length_cons] at plainly
      have alone : literalWidth .plain 0 0 (quote :: (rest ++ [])) = .ok (rest.length + 1) := by
        rw [List.append_nil]
        exact plainly
      have bare : Affix.plain.formatted = false := rfl
      exact opensBehind (literalOpens bare alone) (tripleInside closed)
  obtain ⟨reaches, last⟩ := literalPassed letters isOne opens fun single member =>
    followed.onLine (long.trans single) (by simp [member])
  exact ⟨reaches, quote, isOne, last⟩

/- The scan leaves of the open line what it has passed, or takes the white space at its end; of
the tokens behind it leaves the literals. -/
def Spares (keep : KeepSet) (text : List Char) (tokens : List Token) : Prop :=
  ∀ first passed, ∃ front out, (front = passed ∨ front = trimEnd passed) ∧
    (flow keep first .initial passed text).1 = front ++ out ∧ Leaves tokens out

section
variable {keep : KeepSet} {t : Token} {x : List Char} {later : List Token}

theorem sparesNil (keep : KeepSet) : Spares keep [] [] := by
  intro first passed
  exact ⟨passed, [], .inl rfl, by simp [flow, linesInclusive], .done⟩

theorem sparesPassed (spares : Spares keep x later) (other : t.kind ≠ .string)
    (flows : ∀ first passed, flow keep first .initial passed (t.text ++ x) =
      flow keep first .initial (passed ++ t.text) x) : Spares keep (t.text ++ x) (t :: later) := by
  intro first passed
  obtain ⟨front, out, ends, same, leaves⟩ := spares first (passed ++ t.text)
  rw [flows, same]
  rcases ends with rfl | rfl
  · exact ⟨passed, t.text ++ out, .inl rfl, by simp, .other other (List.prefix_refl _) leaves⟩
  · rcases trimEndAppend passed t.text with trimmed | trimmed
    · exact ⟨trimEnd passed, [] ++ out, .inr rfl, by simp [trimmed],
        .other other List.nil_prefix leaves⟩
    · exact ⟨passed, trimEnd t.text ++ out, .inl rfl, by simp [trimmed],
        .other other (dropEndWhilePrefix _ _) leaves⟩

theorem sparesClosed (spares : Spares keep x later) (other : t.kind ≠ .string)
    (flows : ∀ first passed, flow keep first .initial passed (t.text ++ x) =
      behind (passed ++ t.text) (flow keep false .initial [] x)) :
    Spares keep (t.text ++ x) (t :: later) := by
  intro first passed
  obtain ⟨front, out, ends, same, leaves⟩ := spares false []
  obtain rfl : front = [] := by simpa [trimEnd, dropEndWhile] using ends
  refine ⟨passed, t.text ++ out, .inl rfl, ?_, .other other (List.prefix_refl _) leaves⟩
  rw [flows, behind, same]
  simp

theorem sparesLiteral (spares : Spares keep x later) (literal : t.kind = .string)
    (reaches : Reaches .initial t.text x .initial) {quote : Char} (isOne : isQuote quote = true)
    (last : t.text.getLast? = some quote) : Spares keep (t.text ++ x) (t :: later) := by
  intro first passed
  obtain ⟨settled, opened, more, same, flows, ends⟩ := reachesFlow reaches keep first passed
  have lasts : opened.getLast? = some quote := by
    apply ends quote
    · rw [List.getLast?_append, last]
      rfl
    · exact quoteInLine isOne
  have solid : isWhite quote = false := by rcases quoteOne isOne with rfl | rfl <;> rfl
  obtain ⟨front, out, kept, rest, leaves⟩ := spares more opened
  obtain rfl : front = opened := by simpa [trimEndSolid lasts solid] using kept
  refine ⟨passed, t.text ++ out, .inl rfl, ?_, .literal literal leaves⟩
  rw [flows, behind, rest, ← List.append_assoc, ← same, List.append_assoc]

theorem sparesComment {s : List Char} (spares : Spares keep x later)
    (within : ∀ c ∈ s, isBreak c = false) (atEnd : AtLineEnd x) :
    Spares keep ('#' :: s ++ x) (⟨.comment, '#' :: s⟩ :: later) := by
  intro first passed
  obtain ⟨front, out, ends, same, leaves⟩ := spares false []
  obtain rfl : front = [] := by simpa [trimEnd, dropEndWhile] using ends
  rw [List.cons_append, flowComment within atEnd]
  simp only [same, List.nil_append]
  split
  · exact ⟨passed, ('#' :: s) ++ out, .inl rfl, by simp,
      .other (by simp) (List.prefix_refl _) leaves⟩
  · exact ⟨trimEnd passed, [] ++ out, .inr rfl, by simp, .other (by simp) List.nil_prefix leaves⟩

theorem sparesBreak {front lineBreak : List Char} (spares : Spares keep x later)
    (other : t.kind ≠ .string) (plain : ∀ c ∈ front, isPlain c = true)
    (forms : lineBreak = ['\n'] ∨ lineBreak = ['\r', '\n'] ∨
      lineBreak = ['\r'] ∧ x.head? ≠ some '\n')
    (joined : t.text = front ++ lineBreak) : Spares keep (t.text ++ x) (t :: later) := by
  have start : QuoteState.initial.atLineStart = .initial := rfl
  have closes (paired : lineBreak = ['\n'] ∨ lineBreak = ['\r', '\n']) :
      Spares keep (t.text ++ x) (t :: later) := by
    refine sparesClosed spares other fun first passed => ?_
    rw [joined, List.append_assoc, flowPlain plain, flowBreak paired, start, List.append_assoc]
  rcases forms with feed | both | ⟨rfl, -⟩
  · exact closes (.inl feed)
  · exact closes (.inr both)
  · refine sparesPassed spares other fun first passed => ?_
    have turn : QuoteState.initial.turn? ('\r' :: x) = none := rfl
    rw [joined, List.append_assoc, flowPlain plain, List.singleton_append,
      flowChar (by decide) turn (by simp), ← List.append_assoc]
    rfl

end

theorem commentEndsLine {st : State} {offset : Nat} {x : List Char} {later : List Token}
    (lexed : Lexes st offset x later) (atBreak : AtBreak x)
    (ended : ∀ t, later.head? = some t → t.text ≠ ['\r']) : AtLineEnd x := by
  cases lexed with
  | done => exact .inl rfl
  | @token st offset c s x found later taken whole rest =>
    have first := atBreak c rfl
    have same : next st offset c (s ++ x) = _ := nextCut (.lineBreak first)
    rw [taken] at same
    cases same
    have width := breakWhole first whole
    rw [← List.cons_append]
    rcases breakForms width (by simp) with feed | both | ⟨lone, -⟩
    · rw [feed]
      exact .inr ⟨x, .inl rfl⟩
    · rw [both]
      exact .inr ⟨x, .inr rfl⟩
    · exact absurd lone (ended _ rfl)

theorem sparesTokens {st : State} {offset : Nat} {text : List Char} {tokens : List Token}
    (lexed : Lexes st offset text tokens)
    (followed : ∀ t ∈ tokens, t.kind = .string → Followed t)
    (ended : ∀ pair ∈ tokens.zip tokens.tail, pair.1.kind = .comment → pair.2.text ≠ ['\r'])
    (keep : KeepSet) : Spares keep text tokens := by
  induction lexed with
  | done closed => exact sparesNil keep
  | @token st offset c s x found later taken whole rest ih =>
    have spares := ih (fun t member => followed t (List.mem_cons_of_mem _ member)) (by
      intro pair member
      cases later with
      | nil => cases member
      | cons u later => exact ended pair (List.mem_cons_of_mem _ member))
    have here := followed _ List.mem_cons_self
    cases cutNext taken with
    | blank first =>
      refine sparesPassed (t := ⟨.whitespace, c :: s⟩) spares (by simp) fun first passed => ?_
      exact flowPlain (fun d member => blankPlain ((whitespaceEnds taken whole rfl).1 d member))
        x keep first passed
    | lineBreak first =>
      have width := breakWhole first whole
      have other : breakKind st ≠ .string := by
        rcases breakKindBreak st with kind | kind <;> simp [kind]
      have none : ∀ d ∈ ([] : List Char), isPlain d = true := by simp
      exact sparesBreak (t := ⟨breakKind st, c :: s⟩) spares other none
        (breakForms width (by simp)) rfl
    | comment first =>
      subst first
      have line : ∀ d ∈ s, isBreak d = false := by
        intro d member
        rw [← takeWhileAll whole] at member
        simpa using List.all_eq_true.mp List.all_takeWhile d member
      refine sparesComment spares line (commentEndsLine rest (commentEnds taken whole rfl) ?_)
      intro t next
      cases later with
      | nil => cases next
      | cons u later =>
        cases next
        exact ended _ List.mem_cons_self rfl
    | continuation first behind =>
      subst first
      simp only at whole
      rw [whole] at behind
      have filled : s ≠ [] := fun none => behind (by rw [none]; rfl)
      have backslash : ∀ d ∈ ['\\'], isPlain d = true := List.forall_mem_singleton.mpr rfl
      exact sparesBreak (t := ⟨.continuation, '\\' :: s⟩) spares (by simp) backslash
        (breakForms whole filled) rfl
    | literal | prefixed =>
      obtain ⟨reaches, quote, isOne, last⟩ := followedPassed taken whole rfl (here rfl)
      exact sparesLiteral (t := ⟨.string, c :: s⟩) spares rfl reaches isOne last
    | number | name | opening | closing | mark =>
      have plain := cutPlain taken whole (by simp)
      exact sparesPassed (t := ⟨_, c :: s⟩) spares (by simp)
        (flowPlain (fun d member => (plain d member).1) x keep)

/- Every literal is left where it was, if the line scan can follow all of them and all comments
end their lines. -/
theorem lineScanLeavesLiterals {text : List Char} {tokens : List Token}
    (accepted : tokenize text = .ok tokens)
    (followed : ∀ t ∈ tokens, t.kind = .string → Followed t)
    (ended : ∀ pair ∈ tokens.zip tokens.tail, pair.1.kind = .comment → pair.2.text ≠ ['\r'])
    (keep : KeepSet) : Leaves tokens (lineScan keep text).1 := by
  obtain ⟨front, out, ends, same, leaves⟩ :=
    sparesTokens (tokenizeIff.mp accepted) followed ended keep true []
  obtain rfl : front = [] := by simpa [trimEnd, dropEndWhile] using ends
  rw [lineScanFlow, same]
  exact leaves

theorem lineScanLeavesFields :
    tokenize "f(f'\x7ba\x7d#', \"\"\"b\n#\"\"\") # c\n".toList =
        .ok [⟨.name, ['f']⟩, ⟨.op, ['(']⟩, ⟨.string, "f'\x7ba\x7d#'".toList⟩, ⟨.op, [',']⟩,
          ⟨.whitespace, [' ']⟩, ⟨.string, "\"\"\"b\n#\"\"\"".toList⟩, ⟨.op, [')']⟩,
          ⟨.whitespace, [' ']⟩, ⟨.comment, "# c".toList⟩, ⟨.newline, ['\n']⟩] ∧
      Leaves [⟨.name, ['f']⟩, ⟨.op, ['(']⟩, ⟨.string, "f'\x7ba\x7d#'".toList⟩, ⟨.op, [',']⟩,
          ⟨.whitespace, [' ']⟩, ⟨.string, "\"\"\"b\n#\"\"\"".toList⟩, ⟨.op, [')']⟩,
          ⟨.whitespace, [' ']⟩, ⟨.comment, "# c".toList⟩, ⟨.newline, ['\n']⟩]
        (lineScan .empty "f(f'\x7ba\x7d#', \"\"\"b\n#\"\"\") # c\n".toList).1 := by
  have accepted : tokenize "f(f'\x7ba\x7d#', \"\"\"b\n#\"\"\") # c\n".toList =
      .ok [⟨.name, ['f']⟩, ⟨.op, ['(']⟩, ⟨.string, "f'\x7ba\x7d#'".toList⟩, ⟨.op, [',']⟩,
        ⟨.whitespace, [' ']⟩, ⟨.string, "\"\"\"b\n#\"\"\"".toList⟩, ⟨.op, [')']⟩,
        ⟨.whitespace, [' ']⟩, ⟨.comment, "# c".toList⟩, ⟨.newline, ['\n']⟩] := by with_unfolding_all rfl
  refine ⟨accepted, lineScanLeavesLiterals accepted ?_ (by decide) .empty⟩
  intro t member literal
  have strings : t ∈ [⟨.string, "f'\x7ba\x7d#'".toList⟩, ⟨.string, "\"\"\"b\n#\"\"\"".toList⟩] := by
    revert t
    decide
  simp only [List.mem_cons, List.not_mem_nil, or_false] at strings
  rcases strings with rfl | rfl
  · exact ⟨fun _ => by with_unfolding_all rfl, by decide⟩
  · exact ⟨fun fields => absurd fields (by decide), by decide⟩

/- The scan does not know that a backslash takes the line break of a literal with it. -/
theorem continuedLiteralCut :
    tokenize "'a\\\n#b'".toList = .ok [⟨.string, "'a\\\n#b'".toList⟩] ∧
      ¬ Leaves [⟨.string, "'a\\\n#b'".toList⟩] (lineScan .empty "'a\\\n#b'".toList).1 := by
  have accepted : tokenize "'a\\\n#b'".toList = .ok [⟨.string, "'a\\\n#b'".toList⟩] := by
    with_unfolding_all rfl
  have scanned : (lineScan .empty "'a\\\n#b'".toList).1 = "'a\\\n".toList := by
    with_unfolding_all rfl
  refine ⟨accepted, fun leaves => ?_⟩
  rw [scanned] at leaves
  generalize same : "'a\\\n".toList = out at leaves
  cases leaves with
  | literal literal rest => cases same
  | other other front rest => exact other rfl

end CommentStrip.Python
