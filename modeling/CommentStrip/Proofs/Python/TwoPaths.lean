import CommentStrip.Proofs.Python.TokenFlow
import CommentStrip.Proofs.Text.Trim

/-! The scan by tokens and the scan by lines agree where both apply. The simulation runs over the
tokens: in front of each the quotes are closed, and the part of the line that is still open is
`base`, which does not end in white space, with blanks behind it. -/
namespace CommentStrip.Python
open Unicode Text

/- The open part of a line: `base` does not end in white space, and no run of blanks follows
another. -/
structure Opened (base blanks : List Char) (tokens : List Token) : Prop where
  solid : ∀ c, base.getLast? = some c → isWhite c = false
  blank : ∀ c ∈ blanks, isBlank c = true
  apart : blanks = [] ∨ ∀ t, tokens.head? = some t → t.kind ≠ .whitespace

theorem openedEmpty (tokens : List Token) : Opened [] [] tokens := ⟨by simp, by simp, .inl rfl⟩

def filtered (keep : KeepSet) (first : Bool) (base blanks : List Char) (tokens : List Token) :
    Flow :=
  let atStart := first && (base ++ blanks).isEmpty
  (base ++ (if dropsNext keep tokens then [] else blanks) ++ textOf (remaining keep atStart tokens),
    decisions keep atStart tokens)

def Agrees (keep : KeepSet) (text : List Char) (tokens : List Token) : Prop :=
  ∀ first base blanks, Opened base blanks tokens →
    flow keep first .initial (base ++ blanks) text = filtered keep first base blanks tokens

theorem filteredKept (keep : KeepSet) (first : Bool) (base blanks : List Char) {t : Token}
    (later : List Token) (plain : t.kind ≠ .comment ∧ t.kind ≠ .whitespace) :
    filtered keep first base blanks (t :: later) =
      behind (base ++ blanks ++ t.text) (filtered keep false [] [] later) := by
  have stays : dropsNext keep (t :: later) = false := by simp [dropsNext, plain.1]
  have decided : ∀ atStart, decisions keep atStart (t :: later) = decisions keep false later := by
    intro atStart
    simp [decisions, plain.1]
  simp only [filtered, stays, decided, remainingKept plain, behind]
  simp [textOf]

theorem filteredLast (keep : KeepSet) (first : Bool) {last : List Char} (filled : last ≠ [])
    (tokens : List Token) :
    filtered keep first last [] tokens = behind last (filtered keep false [] [] tokens) := by
  have started : last.isEmpty = false := by simpa using filled
  simp [filtered, behind, started]

theorem agreesNil (keep : KeepSet) : Agrees keep [] [] := by
  intro first base blanks _
  simp [flow, linesInclusive, filtered, dropsNext, remaining, textOf, decisions]

theorem agreesBlank {keep : KeepSet} {w x : List Char} {later : List Token}
    (agrees : Agrees keep x later) (filled : w ≠ [])
    (blank : ∀ c ∈ w, isBlank c = true)
    (apart : ∀ t, later.head? = some t → t.kind ≠ .whitespace) :
    Agrees keep (w ++ x) (⟨.whitespace, w⟩ :: later) := by
  intro first base blanks opened
  obtain rfl : blanks = [] := opened.apart.resolve_right fun other => other _ rfl rfl
  have plain : ∀ c ∈ w, isPlain c = true := fun c member => blankPlain (blank c member)
  rw [List.append_nil, flowPlain plain,
    agrees first base w ⟨opened.solid, blank, .inr apart⟩]
  have started : (base ++ w).isEmpty = false := by simp [filled]
  have stays : dropsNext keep (⟨.whitespace, w⟩ :: later) = false := by simp [dropsNext]
  simp only [filtered, stays, started, remaining, decisions]
  cases drops : dropsNext keep later with
  | true => simp
  | false => simp [textOf]

theorem agreesBreak {keep : KeepSet} {t : Token} {x : List Char} {later : List Token}
    (agrees : Agrees keep x later) (lineBreak : t.text = ['\n'] ∨ t.text = ['\r', '\n'])
    (plain : t.kind ≠ .comment ∧ t.kind ≠ .whitespace) :
    Agrees keep (t.text ++ x) (t :: later) := by
  intro first base blanks opened
  have next := agrees false [] [] (openedEmpty later)
  rw [filteredKept keep first base blanks later plain, ← next]
  exact flowBreak lineBreak .initial keep first (base ++ blanks) x

theorem agreesContinuation {keep : KeepSet} {t : Token} {x : List Char} {later : List Token}
    (agrees : Agrees keep x later) {terminator : List Char}
    (joined : t.text = ['\\'] ++ terminator)
    (lineBreak : terminator = ['\n'] ∨ terminator = ['\r', '\n'])
    (plain : t.kind ≠ .comment ∧ t.kind ≠ .whitespace) :
    Agrees keep (t.text ++ x) (t :: later) := by
  intro first base blanks opened
  have next := agrees false [] [] (openedEmpty later)
  have backslash : ∀ c ∈ ['\\'], isPlain c = true := List.forall_mem_singleton.mpr rfl
  have passes := flowPlain backslash (terminator ++ x) keep first (base ++ blanks)
  rw [flowBreak lineBreak] at passes
  rw [filteredKept keep first base blanks later plain, ← next, joined, List.append_assoc]
  exact passes.trans (by simp [behind, QuoteState.atLineStart, QuoteState.initial])

theorem agreesSolid {keep : KeepSet} {t : Token} {x : List Char} {later : List Token}
    (agrees : Agrees keep x later) (solid : Solid t.text x)
    (white : ∀ c ∈ t.text, isWhite c = true → isBlank c = true ∨ isBreak c = true)
    (plain : t.kind ≠ .comment ∧ t.kind ≠ .whitespace) :
    Agrees keep (t.text ++ x) (t :: later) := by
  intro first base blanks opened
  obtain ⟨front, last, more, same, flows, ends⟩ :=
    reachesFlow solid.reaches keep first (base ++ blanks)
  obtain ⟨c, final, noBlank, noBreak⟩ := solid.ends
  have lasts : last.getLast? = some c := by
    apply ends c
    · rw [List.getLast?_append, final]
      rfl
    · intro same
      subst same
      cases noBreak
  have solidLast : ∀ d, last.getLast? = some d → isWhite d = false := by
    intro d lastToo
    obtain rfl : c = d := Option.some.inj (lasts.symm.trans lastToo)
    rw [Bool.eq_false_iff]
    intro isSpace
    rcases white c (List.mem_of_getLast? final) isSpace with blank | breaks
    · rw [noBlank] at blank
      cases blank
    · rw [noBreak] at breaks
      cases breaks
  have filled : last ≠ [] := by
    intro same
    subst same
    cases lasts
  have next := agrees more last [] ⟨solidLast, by simp, .inl rfl⟩
  rw [List.append_nil] at next
  rw [flows, next, filteredKept keep first base blanks later plain, filteredLast keep more filled,
    behindTwice, same]

theorem agreesComment {keep : KeepSet} {s x : List Char} {later : List Token}
    (agrees : Agrees keep x later) (within : ∀ c ∈ s, isBreak c = false) (atEnd : AtLineEnd x) :
    Agrees keep ('#' :: s ++ x) (⟨.comment, '#' :: s⟩ :: later) := by
  intro first base blanks opened
  have next := agrees false [] [] (openedEmpty later)
  have trimmed := trimEndWhite opened.solid fun c member => blankWhite (opened.blank c member)
  have here := flowComment within atEnd keep first (base ++ blanks)
  rw [List.append_nil] at next
  rw [List.cons_append, here, next, trimmed]
  -- Behind blanks the comment is not at the start, so that both sides ask for it alike.
  have drops : blanks = [] ∨ dropsNext keep (⟨.comment, '#' :: s⟩ :: later) =
      !keeps keep (first && (base ++ blanks).isEmpty) ⟨.comment, '#' :: s⟩ := by
    by_cases empty : blanks = []
    · exact .inl empty
    · right
      have started : (base ++ blanks).isEmpty = false := by simp [empty]
      simp [dropsNext, started]
  simp only [filtered, remaining, decisions]
  cases stays : keeps keep (first && (base ++ blanks).isEmpty) ⟨.comment, '#' :: s⟩ with
  | true =>
    rcases drops with rfl | drops
    · simp [textOf]
    · simp [textOf, drops, stays]
  | false =>
    rcases drops with rfl | drops
    · simp
    · simp [drops, stays]

theorem notWhitespace {st : State} {offset : Nat} {x : List Char} {later : List Token}
    (lexed : Lexes st offset x later) (solid : ∀ d, x.head? = some d → isBlank d = false) :
    ∀ t, later.head? = some t → t.kind ≠ .whitespace := by
  intro t first white
  cases lexed with
  | done => cases first
  | @token st offset c s x found later taken whole rest =>
    cases first
    have blank := (whitespaceEnds taken whole white).1 c List.mem_cons_self
    rw [solid c rfl] at blank
    cases blank

theorem breakPair {t x : List Char} (width : breakWidth (t ++ x) = t.length) (filled : t ≠ [])
    (paired : Paired (t ++ x)) : t = ['\n'] ∨ t = ['\r', '\n'] := by
  rcases breakForms width filled with feed | both | ⟨rfl, lone⟩
  · exact .inl feed
  · exact .inr both
  · exact absurd (paired.across rfl) lone

theorem flowTokens {st : State} {offset : Nat} {text : List Char} {tokens : List Token}
    (lexed : Lexes st offset text tokens) (paired : Paired text)
    (white : ∀ c ∈ text, isWhite c = true → isBlank c = true ∨ isBreak c = true)
    (simple : ∀ t ∈ tokens, Simple t) (keep : KeepSet) : Agrees keep text tokens := by
  induction lexed with
  | done closed => exact agreesNil keep
  | @token st offset c s x found later taken whole rest ih =>
    have tail : Paired (s ++ x) := Paired.behind (s := [c]) paired
    have agrees := ih tail.behind
      (fun d member => white d (List.mem_cons_of_mem c (List.mem_append_right s member)))
      (fun t member => simple t (List.mem_cons_of_mem _ member))
    have here := simple _ List.mem_cons_self
    cases cutNext taken with
    | blank first =>
      obtain ⟨blank, ends⟩ := whitespaceEnds taken whole rfl
      exact agreesBlank agrees (by simp) blank (notWhitespace rest ends)
    | lineBreak first =>
      have width := breakWhole first whole
      have plain : breakKind st ≠ .comment ∧ breakKind st ≠ .whitespace := by
        rcases breakKindBreak st with kind | kind <;> simp [kind]
      exact agreesBreak (t := ⟨breakKind st, c :: s⟩) agrees (breakPair width (by simp) paired) plain
    | comment first =>
      subst first
      have line : ∀ d ∈ s, isBreak d = false := by
        intro d member
        rw [← takeWhileAll whole] at member
        simpa using List.all_eq_true.mp List.all_takeWhile d member
      exact agreesComment agrees line (tail.behind.atLineEnd (commentEnds taken whole rfl))
    | continuation first behind =>
      subst first
      simp only at whole
      rw [whole] at behind
      have filled : s ≠ [] := fun none => behind (by rw [none]; rfl)
      exact agreesContinuation (t := ⟨.continuation, '\\' :: s⟩) agrees rfl
        (breakPair whole filled tail) (by simp)
    | literal | number | prefixed | name | opening | closing | mark =>
      exact agreesSolid (t := ⟨_, c :: s⟩) agrees
        (cutSolid taken whole here (by simp))
        (fun d member => white d (List.mem_append_left x member)) (by simp)

/- Where the text is Python without formatted literals and without plain ones that run over a
line, and has no other white space than the common blanks and line breaks, the two scans give
the same text and count the same. -/
theorem scansAgree {text : List Char} {tokens : List Token} (accepted : tokenize text = .ok tokens)
    (white : ∀ c ∈ text, isWhite c = true → c ∈ [' ', '\t', '\x0c', '\n', '\r'])
    (paired : Paired text)
    (unformatted : ∀ t ∈ tokens, t.kind = .string → isFormatted t = false)
    (onLine : ∀ t ∈ tokens, t.kind = .string → isLong t = false → ∀ c ∈ t.text, isBreak c = false)
    (keep : KeepSet) : strip keep text = .ok (lineScan keep text) := by
  have common : ∀ c ∈ text, isWhite c = true → isBlank c = true ∨ isBreak c = true := by
    intro c member isSpace
    have known := white c member isSpace
    simp only [List.mem_cons, List.not_mem_nil, or_false] at known
    rcases known with rfl | rfl | rfl | rfl | rfl <;> decide
  have simple : ∀ t ∈ tokens, Simple t := by
    intro t member literal
    refine ⟨unformatted t member literal, fun short feed => ?_⟩
    cases onLine t member literal short '\n' feed
  have agrees := flowTokens (tokenizeIff.mp accepted) paired common simple keep true [] []
    (openedEmpty tokens)
  rw [List.append_nil] at agrees
  simp only [strip, accepted, Except.map, stripTokens, lineScanFlow, agrees, filtered]
  simp

theorem scansAgreeScript :
    tokenize "f(b'#', '''a\r\n#''') # c\n".toList =
        .ok [⟨.name, ['f']⟩, ⟨.op, ['(']⟩, ⟨.string, "b'#'".toList⟩, ⟨.op, [',']⟩,
          ⟨.whitespace, [' ']⟩, ⟨.string, "'''a\r\n#'''".toList⟩, ⟨.op, [')']⟩,
          ⟨.whitespace, [' ']⟩, ⟨.comment, "# c".toList⟩, ⟨.newline, ['\n']⟩] ∧
      strip .empty "f(b'#', '''a\r\n#''') # c\n".toList =
        .ok (lineScan .empty "f(b'#', '''a\r\n#''') # c\n".toList) := by
  have accepted : tokenize "f(b'#', '''a\r\n#''') # c\n".toList =
      .ok [⟨.name, ['f']⟩, ⟨.op, ['(']⟩, ⟨.string, "b'#'".toList⟩, ⟨.op, [',']⟩,
        ⟨.whitespace, [' ']⟩, ⟨.string, "'''a\r\n#'''".toList⟩, ⟨.op, [')']⟩,
        ⟨.whitespace, [' ']⟩, ⟨.comment, "# c".toList⟩, ⟨.newline, ['\n']⟩] := by with_unfolding_all rfl
  exact ⟨accepted, scansAgree accepted (by simp; decide) (by decide) (by decide) (by simp; decide)
    .empty⟩

end CommentStrip.Python
