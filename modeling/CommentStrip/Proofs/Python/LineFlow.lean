import CommentStrip.Proofs.Text.Breaks
import CommentStrip.Python.LineScan

/-! The line scan from the middle of a line on. What it has passed of the line stands for the
part of its output that is still open: a comment may take the white space at its end. -/
namespace CommentStrip.Python
open Text

abbrev Flow := List Char × List Bool

def outcome (results : List LineResult) : Flow :=
  (results.flatMap LineResult.text, results.filterMap LineResult.decision)

/- What a line with this first hash becomes when `passed` is the part in front of it. -/
def finish (keep : KeepSet) (first : Bool) (passed line terminator : List Char)
    (later : QuoteState) : Option Nat → LineResult
  | none => ⟨passed ++ (line ++ terminator), none, later⟩
  | some n =>
    if (passed = [] ∧ n = 0 ∧ first = true ∧ startsWith ['#', '!'] line = true) ∨
        keep.holds (line.drop n) = true
    then ⟨passed ++ (line ++ terminator), some true, later⟩
    else ⟨trimEnd (passed ++ line.take n) ++ terminator, some false, later⟩

def scanRest (keep : KeepSet) (first : Bool) (st : QuoteState) (passed raw : List Char) :
    LineResult :=
  let (line, terminator) := splitTerminator raw
  let (hash, later) := st.feedFrom line
  finish keep first passed line terminator later hash

def flow (keep : KeepSet) (first : Bool) (st : QuoteState) (passed text : List Char) : Flow :=
  match linesInclusive text with
  | [] => (passed, [])
  | raw :: rest =>
    let here := scanRest keep first st passed raw
    outcome (here :: scanLines keep false here.state rest)

theorem scanLineRest (keep : KeepSet) (first : Bool) (st : QuoteState) (raw : List Char) :
    scanLine keep first st raw = scanRest keep first st.atLineStart [] raw := by
  have whole := splitTerminatorAppend raw
  simp only [scanLine, scanRest, QuoteState.feedLine]
  cases (st.atLineStart.feedFrom (splitTerminator raw).1).1 with
  | none => simp only [finish, List.nil_append, whole]
  | some n => simp only [finish, List.nil_append, true_and, whole]

theorem scanLinesFlow (keep : KeepSet) (first : Bool) (st : QuoteState) (text : List Char) :
    outcome (scanLines keep first st (linesInclusive text)) =
      flow keep first st.atLineStart [] text := by
  unfold flow
  cases linesInclusive text with
  | nil => rfl
  | cons raw rest => simp only [scanLines, scanLineRest]

theorem lineScanFlow (keep : KeepSet) (text : List Char) :
    lineScan keep text =
      ((flow keep true .initial [] text).1, .ofDecisions (flow keep true .initial [] text).2) := by
  have whole : outcome (scanLines keep true .initial (linesInclusive text)) =
      flow keep true .initial [] text := scanLinesFlow keep true .initial text
  rw [← whole]
  rfl

theorem outcomeCons (here : LineResult) (later : List LineResult) :
    outcome (here :: later) =
      (here.text ++ (outcome later).1, here.decision.toList ++ (outcome later).2) := by
  cases decision : here.decision <;> simp [outcome, decision]

theorem finishState (keep : KeepSet) (first : Bool) (passed line terminator : List Char)
    (later : QuoteState) (hash : Option Nat) :
    (finish keep first passed line terminator later hash).state = later := by
  cases hash with
  | none => rfl
  | some n =>
    rw [finish]
    split <;> rfl

theorem flowCut {body terminator rest : List Char} (cut : LineCut body terminator rest)
    (keep : KeepSet) (first : Bool) (st : QuoteState) (passed : List Char) :
    flow keep first st passed (body ++ terminator ++ rest) =
      let fed := st.feedFrom body
      let here := finish keep first passed body terminator fed.2 fed.1
      let later := flow keep false fed.2.atLineStart [] rest
      (here.text ++ later.1, here.decision.toList ++ later.2) := by
  by_cases filled : body ++ terminator = []
  · obtain ⟨rfl, rfl⟩ := List.append_eq_nil_iff.mp filled
    rcases cut.ends with ⟨-, rfl⟩ | ⟨bad, -⟩ | bad
    · simp [flow, linesInclusive, QuoteState.feedFrom, finish]
    · cases bad
    · cases bad
  · simp only [flow.eq_def keep first, cut.lines filled, outcomeCons, scanRest, cut.split,
      finishState, scanLinesFlow]

def behind (front : List Char) (later : Flow) : Flow := (front ++ later.1, later.2)

theorem behindTwice (a b : List Char) (later : Flow) :
    behind a (behind b later) = behind (a ++ b) later := by
  simp [behind]

theorem finishPast {front : List Char} (filled : front ≠ []) (keep : KeepSet) (first : Bool)
    (passed body terminator : List Char) (later : QuoteState) (hash : Option Nat) :
    finish keep first passed (front ++ body) terminator later (hash.map (· + front.length)) =
      finish keep first (passed ++ front) body terminator later hash := by
  have long := List.length_pos_iff.mpr filled
  cases hash with
  | none => simp [finish]
  | some n =>
    have never : ¬ (passed = [] ∧ n + front.length = 0 ∧ first = true ∧
        startsWith ['#', '!'] (front ++ body) = true) := by
      intro parts
      obtain ⟨-, none, -⟩ := parts
      omega
    have neverToo : ¬ (passed ++ front = [] ∧ n = 0 ∧ first = true ∧
        startsWith ['#', '!'] body = true) := by
      intro parts
      obtain ⟨none, -⟩ := parts
      exact filled (List.append_eq_nil_iff.mp none).2
    have dropped : (front ++ body).drop (n + front.length) = body.drop n := by
      rw [Nat.add_comm, List.drop_length_add_append]
    have taken : (front ++ body).take (n + front.length) = front ++ body.take n := by
      rw [Nat.add_comm, List.take_length_add_append]
    simp only [Option.map_some, finish, never, neverToo, false_or, dropped, taken,
      List.append_assoc]

def Unquoted (x : List Char) : Prop := ∀ c, x.head? = some c → ∀ q : TripleQuote, c ≠ q.mark

theorem breakUnquoted {x : List Char} (atBreak : AtBreak x) : Unquoted x := by
  intro c first q same
  have lineBreak := atBreak c first
  subst same
  cases q <;> cases lineBreak

theorem turnApart (st : QuoteState) (line : List Char) {x : List Char} (apart : Unquoted x) :
    st.turn? (line ++ x) = st.turn? line := by
  have quotes : ∀ q : TripleQuote,
      startsWith q.delimiter (line ++ x) = startsWith q.delimiter line := by
    intro q
    apply startsWithApart line
    intro c first
    simpa [TripleQuote.delimiter] using apart c first q
  unfold QuoteState.turn?
  simp only [quotes]

theorem flowPast {st st' : QuoteState} {front body terminator rest : List Char}
    (filled : front ≠ []) (whole : LineCut (front ++ body) terminator rest)
    (cut : LineCut body terminator rest)
    (fed : st.feedFrom (front ++ body) =
      ((st'.feedFrom body).1.map (· + front.length), (st'.feedFrom body).2))
    (keep : KeepSet) (first : Bool) (passed : List Char) :
    flow keep first st passed (front ++ (body ++ terminator ++ rest)) =
      flow keep first st' (passed ++ front) (body ++ terminator ++ rest) := by
  rw [← List.append_assoc, ← List.append_assoc, flowCut whole, flowCut cut, fed]
  simp only [finishPast filled]

theorem flowBreak {terminator : List Char}
    (lineBreak : terminator = ['\n'] ∨ terminator = ['\r', '\n']) (st : QuoteState)
    (keep : KeepSet) (first : Bool) (passed rest : List Char) :
    flow keep first st passed (terminator ++ rest) =
      behind (passed ++ terminator) (flow keep false st.atLineStart [] rest) := by
  have ends : terminator = ['\n'] ∧ ([] : List Char).getLast? ≠ some '\r' ∨
      terminator = ['\r', '\n'] := by simpa using lineBreak
  have cut : LineCut [] terminator rest := ⟨by simp, .inr ends⟩
  have here := flowCut cut keep first st passed
  simpa [QuoteState.feedFrom, finish, behind] using here

namespace QuoteState

theorem turnCases {st later : QuoteState} {text : List Char} (turns : st.turn? text = some later) :
    st.escaped = false ∧
      ((∃ q, st.triple = some q ∧ startsWith q.delimiter text = true ∧
          later = { st with triple := none }) ∨
        st.isOpen = false ∧ ∃ q : TripleQuote, startsWith q.delimiter text = true ∧
          later = { st with triple := some q }) := by
  cases triple : st.triple with
  | some q =>
    simp only [turn?, triple] at turns
    split at turns
    · rename_i both
      rw [Bool.and_eq_true, Bool.not_eq_true'] at both
      cases turns
      exact ⟨both.1, .inl ⟨q, rfl, both.2, rfl⟩⟩
    · cases turns
  | none =>
    simp only [turn?, triple] at turns
    split at turns
    · cases turns
    rename_i closed
    simp only [Bool.or_eq_true, not_or, Bool.not_eq_true] at closed
    have nothing : st.isOpen = false := by simp [isOpen, closed, triple]
    split at turns
    · rename_i starts
      cases turns
      exact ⟨closed.1.1, .inr ⟨nothing, .double, starts, rfl⟩⟩
    · split at turns
      · rename_i starts
        cases turns
        exact ⟨closed.1.1, .inr ⟨nothing, .single, starts, rfl⟩⟩
      · cases turns

theorem passCases (st : QuoteState) (c : Char) :
    (∃ waits, st.pass c = { st with escaped := waits } ∧ (waits = true → st.isOpen = true)) ∨
      st.escaped = false ∧
        ((st.pass c = { st with single := false } ∨ st.pass c = { st with double := false }) ∨
          st.isOpen = false ∧
            (st.pass c = { st with single := true } ∨ st.pass c = { st with double := true })) := by
  by_cases waited : st.escaped = true
  · exact .inl ⟨false, by rw [pass, if_pos waited], nofun⟩
  have normal : st.escaped = false := by simpa using waited
  have still : (∃ waits, st = { st with escaped := waits } ∧ (waits = true → st.isOpen = true)) :=
    ⟨false, by rw [← normal], nofun⟩
  rw [pass, if_neg waited]
  split
  · rename_i long
    split
    · exact .inl ⟨true, rfl, fun _ => by simp [isOpen, long]⟩
    · exact .inl still
  rename_i short
  split
  · rename_i quoted
    split
    · exact .inl ⟨true, rfl, fun _ => by simp [isOpen, quoted]⟩
    split
    · exact .inr ⟨normal, .inl (.inl rfl)⟩
    split
    · exact .inr ⟨normal, .inl (.inr rfl)⟩
    · exact .inl still
  · rename_i plain
    have closed : st.isOpen = false := by
      rw [isOpen, Bool.not_eq_true _ |>.mp plain, Bool.not_eq_true _ |>.mp short]
      rfl
    split
    · exact .inr ⟨normal, .inr ⟨closed, .inl rfl⟩⟩
    split
    · exact .inr ⟨normal, .inr ⟨closed, .inr rfl⟩⟩
    · exact .inl still

end QuoteState

theorem passLineStart (st : QuoteState) (c : Char) : (st.pass c).atLineStart = st.atLineStart := by
  rcases st.passCases c with ⟨waits, same, -⟩ | ⟨-, (same | same) | ⟨-, same | same⟩⟩ <;>
    rw [same] <;> rfl

theorem flowChar {st : QuoteState} {c : Char} {rest : List Char} (inLine : c ≠ '\n')
    (plain : st.turn? (c :: rest) = none)
    (noHash : ¬ (c = '#' ∧ st.isOpen = false ∧ st.escaped = false))
    (keep : KeepSet) (first : Bool) (passed : List Char) :
    flow keep first st passed (c :: rest) = flow keep first (st.pass c) (passed ++ [c]) rest := by
  obtain ⟨body, terminator, later, rfl, cut⟩ := lineCut rest
  by_cases joined : body = [] ∧ terminator = ['\n'] ∧ c = '\r'
  · -- The two characters are one terminator, on the right with the first of them passed.
    obtain ⟨rfl, rfl, rfl⟩ := joined
    have both := flowBreak (.inr rfl) st keep first passed later
    have feed := flowBreak (.inl rfl) (st.pass '\r') keep first (passed ++ ['\r']) later
    rw [passLineStart, List.append_assoc] at feed
    exact both.trans feed.symm
  · have whole : LineCut ([c] ++ body) terminator later := by
      refine cut.behind (by simpa using Ne.symm inLine) ?_
      intro empty isFeed last
      exact joined ⟨empty, isFeed, by simpa using last⟩
    refine flowPast (by simp) whole cut ?_ keep first passed
    rw [List.append_assoc, ← List.cons_append, turnApart st (c :: body) (breakUnquoted cut.atBreak)] at plain
    rw [List.singleton_append, QuoteState.feedFrom, plain]
    simp only [if_neg noHash]
    rfl

theorem turnQuotes {st opened : QuoteState} {text : List Char} (turns : st.turn? text = some opened) :
    ∃ q : TripleQuote, startsWith q.delimiter text = true := by
  rcases QuoteState.turnCases turns with ⟨-, ⟨q, -, starts, -⟩ | ⟨-, q, starts, -⟩⟩ <;>
    exact ⟨q, starts⟩

theorem flowTurn {st opened : QuoteState} {a b c : Char} {rest : List Char}
    (turns : st.turn? (a :: b :: c :: rest) = some opened)
    (keep : KeepSet) (first : Bool) (passed : List Char) :
    flow keep first st passed (a :: b :: c :: rest) =
      flow keep first opened (passed ++ [a, b, c]) rest := by
  obtain ⟨q, starts⟩ := turnQuotes turns
  obtain ⟨behind, same⟩ := startsWithIff.mp starts
  simp only [TripleQuote.delimiter, List.cons_append, List.nil_append, List.cons.injEq] at same
  obtain ⟨rfl, rfl, rfl, -⟩ := same
  obtain ⟨body, terminator, later, rfl, cut⟩ := lineCut rest
  have whole : LineCut ([q.mark, q.mark, q.mark] ++ body) terminator later := by
    refine cut.behind ?_ fun _ _ => ?_
    · cases q <;> simp [TripleQuote.mark]
    · cases q <;> simp [TripleQuote.mark]
  refine flowPast (by simp) whole cut ?_ keep first passed
  rw [List.append_assoc] at turns
  have onLine := turnApart st ([q.mark, q.mark, q.mark] ++ body) (breakUnquoted cut.atBreak)
  rw [List.append_assoc] at onLine
  rw [List.cons_append, QuoteState.feedFrom, ← List.cons_append, ← onLine]
  simp only [List.cons_append, List.nil_append, turns]
  rfl

/- The quotes pass `t`, with `x` behind it, without a comment. -/
inductive Reaches : QuoteState → (t x : List Char) → QuoteState → Prop where
  | here {st x} : Reaches st [] x st
  | char {st c t x st'} (inLine : c ≠ '\n') (plain : st.turn? (c :: (t ++ x)) = none)
      (noHash : ¬ (c = '#' ∧ st.isOpen = false ∧ st.escaped = false))
      (later : Reaches (st.pass c) t x st') : Reaches st (c :: t) x st'
  | turn {st opened a b c t x st'} (turns : st.turn? (a :: b :: c :: (t ++ x)) = some opened)
      (later : Reaches opened t x st') : Reaches st (a :: b :: c :: t) x st'
  | feed {st t x st'} (later : Reaches st.atLineStart t x st') : Reaches st ('\n' :: t) x st'

/- A flow is settled up to the last line; what is open of that line ends as the text does. -/
def Settles (keep : KeepSet) (st st' : QuoteState) (first : Bool) (passed t x : List Char) : Prop :=
  ∃ front last later, passed ++ t = front ++ last ∧
    flow keep first st passed (t ++ x) = behind front (flow keep later st' last x) ∧
    ∀ c, (passed ++ t).getLast? = some c → c ≠ '\n' → last.getLast? = some c

theorem reachesFlow {st st' : QuoteState} {t x : List Char} (reaches : Reaches st t x st')
    (keep : KeepSet) (first : Bool) (passed : List Char) :
    Settles keep st st' first passed t x := by
  induction reaches generalizing first passed with
  | here =>
    refine ⟨[], passed, first, by simp, rfl, ?_⟩
    intro c final _
    simpa using final
  | @char st c t x st' inLine plain noHash later ih =>
    obtain ⟨front, last, more, same, flows, ends⟩ := ih first (passed ++ [c])
    rw [List.append_assoc, List.singleton_append] at same ends
    refine ⟨front, last, more, same, ?_, ends⟩
    rw [List.cons_append, flowChar inLine plain noHash, flows]
  | @turn st opened a b c t x st' turns later ih =>
    obtain ⟨front, last, more, same, flows, ends⟩ := ih first (passed ++ [a, b, c])
    rw [List.append_assoc] at same ends
    refine ⟨front, last, more, same, ?_, ends⟩
    simp only [List.cons_append]
    rw [flowTurn turns, flows]
  | @feed st t x st' later ih =>
    obtain ⟨front, last, more, same, flows, ends⟩ := ih false []
    rw [List.nil_append] at same ends
    refine ⟨passed ++ ['\n'] ++ front, last, more, by simp [same], ?_, ?_⟩
    · have breaks := flowBreak (.inl rfl) st keep first passed (t ++ x)
      rw [List.singleton_append] at breaks
      rw [List.cons_append, breaks, flows, behindTwice]
    · intro c final solid
      cases t with
      | nil => simp [Ne.symm solid] at final
      | cons d t => exact ends c (by simpa using final) solid

end CommentStrip.Python
