import CommentStrip.Proofs.Python.LineFlow
import CommentStrip.Proofs.Tally
import CommentStrip.Proofs.Text.Removal
import CommentStrip.Proofs.Text.Seam
import CommentStrip.Proofs.Text.Trim

/-! A second scan by lines. In front of the comment of a line, and in front of the white space
that goes with it, all quotes are closed; what is left of the line is read as it was, and the
next line begins as it did. -/
namespace CommentStrip.Python
open Unicode Text

namespace QuoteState

/- Only inside quotes a backslash waits for the next character. -/
def Sound (st : QuoteState) : Prop := st.escaped = true → st.isOpen = true

theorem lineStartSound (st : QuoteState) : st.atLineStart.Sound := by
  intro waits
  cases waits

theorem passSound (st : QuoteState) (c : Char) : (st.pass c).Sound := by
  rcases st.passCases c with ⟨waits, same, inside⟩ | ⟨normal, cases⟩
  · rw [same]
    exact inside
  · rcases cases with (same | same) | ⟨-, same | same⟩ <;>
    · rw [same]
      exact fun waits => absurd (normal.symm.trans waits) Bool.false_ne_true

theorem turnNormal {st later : QuoteState} {text : List Char} (turns : st.turn? text = some later) :
    later.escaped = false := by
  rcases turnCases turns with ⟨normal, ⟨q, -, -, rfl⟩ | ⟨-, q, -, rfl⟩⟩ <;> exact normal

theorem turnSound {st later : QuoteState} {text : List Char} (turns : st.turn? text = some later) :
    later.Sound := by
  intro waits
  rw [turnNormal turns] at waits
  cases waits

theorem soundClosed {st : QuoteState} (sound : st.Sound) (closed : st.isOpen = false) :
    st.escaped = false := by
  cases waits : st.escaped with
  | false => rfl
  | true =>
    rw [sound waits] at closed
    cases closed

theorem whiteUnquoted {w : List Char} (white : ∀ c ∈ w, isWhite c = true) : Unquoted w := by
  intro c first q same
  have isSpace := white c (List.mem_of_mem_head? first)
  subst same
  cases q <;> cases isSpace

theorem passWhite (st : QuoteState) {c : Char} (white : isWhite c = true) :
    st.pass c = { st with escaped := false } := by
  have plain : c ≠ '\\' ∧ c ≠ '\'' ∧ c ≠ '"' := by
    refine ⟨?_, ?_, ?_⟩ <;>
    · intro same
      subst same
      cases white
  obtain ⟨single, double, triple, escaped⟩ := st
  cases escaped <;> simp [pass, plain]

theorem turnNil (st : QuoteState) : st.turn? [] = none := by
  cases triple : st.triple <;> simp [turn?, triple, startsWith, after, TripleQuote.delimiter]

theorem turnWhite (st : QuoteState) {w : List Char} (white : ∀ c ∈ w, isWhite c = true) :
    st.turn? w = none := (turnApart st [] (whiteUnquoted white)).trans (turnNil st)

theorem feedWhite {w : List Char} (white : ∀ c ∈ w, isWhite c = true) (st : QuoteState) :
    (st.feedFrom w).2.isOpen = st.isOpen ∧ (st.escaped = false → (st.feedFrom w).2 = st) := by
  induction w generalizing st with
  | nil =>
    rw [feedFrom]
    exact ⟨rfl, fun _ => rfl⟩
  | cons c w ih =>
    have isSpace := white c List.mem_cons_self
    have noHash : ¬ (c = '#' ∧ st.isOpen = false ∧ st.escaped = false) := by
      intro hash
      rw [hash.1] at isSpace
      cases isSpace
    have behind := ih (fun d member => white d (List.mem_cons_of_mem c member))
      { st with escaped := false }
    rw [feedFrom, turnWhite st white]
    simp only [if_neg noHash, passWhite st isSpace]
    refine ⟨behind.1, fun normal => ?_⟩
    rw [behind.2 rfl, ← normal]

theorem turnInside (st : QuoteState) {s : List Char} (long : 3 ≤ s.length) (x : List Char) :
    st.turn? (s ++ x) = st.turn? s := by
  have quotes : ∀ q : TripleQuote, startsWith q.delimiter (s ++ x) = startsWith q.delimiter s :=
    fun q => startsWithInside q.delimiter long x
  unfold turn?
  simp only [quotes]

theorem turnFront {st : QuoteState} {x y : List Char} (still : st.turn? (x ++ y) = none) :
    st.turn? x = none := by
  have grows : ∀ q : TripleQuote, startsWith q.delimiter x = true →
      startsWith q.delimiter (x ++ y) = true := by
    intro q starts
    exact startsWithPrefix.mpr ((startsWithPrefix.mp starts).trans (List.prefix_append x y))
  grind [turn?]

theorem turnThree {st later : QuoteState} {text : List Char} (turns : st.turn? text = some later) :
    ∃ a b c rest, text = a :: b :: c :: rest := by
  obtain ⟨q, starts⟩ := turnQuotes turns
  obtain ⟨rest, same⟩ := startsWithIff.mp starts
  exact ⟨_, _, _, rest, same⟩

theorem feedTrimmed {st later : QuoteState} {y w : List Char} (sound : st.Sound)
    (white : ∀ c ∈ w, isWhite c = true) (fed : st.feedFrom (y ++ w) = (none, later))
    (closed : later.isOpen = false) : st.feedFrom y = (none, later) := by
  have apart := whiteUnquoted white
  fun_induction feedFrom st y generalizing later with
  | case1 st =>
    have passes := feedWhite white st
    rw [List.nil_append] at fed
    rw [fed] at passes
    have normal := soundClosed sound (passes.1.symm.trans closed)
    rw [← passes.2 normal]
  | case2 st c rest opened turns result =>
    rename_i ih
    obtain ⟨_, d, e, rest, same⟩ := turnThree turns
    cases same
    rw [List.cons_append, feedFrom, ← List.cons_append, turnApart st _ apart, turns,
      Prod.mk.injEq, Option.map_eq_none_iff] at fed
    have here : result = (none, later) := ih (turnSound turns) (Prod.ext fed.1 fed.2) closed
    rw [here]
    rfl
  | case3 st c rest turns hash =>
    rw [List.cons_append, feedFrom, ← List.cons_append, turnApart st _ apart, turns, if_pos hash] at fed
    cases fed
  | case4 st c rest turns noHash result =>
    rename_i ih
    rw [List.cons_append, feedFrom, ← List.cons_append, turnApart st _ apart, turns] at fed
    simp only [if_neg noHash, Prod.mk.injEq, Option.map_eq_none_iff] at fed
    have here : result = (none, later) := ih (passSound st c) (Prod.ext fed.1 fed.2) closed
    rw [here]
    rfl

theorem feedTaken {st later : QuoteState} {text : List Char} {n : Nat}
    (fed : st.feedFrom text = (some n, later)) :
    st.feedFrom (text.take n) = (none, later) ∧ later.isOpen = false ∧ n < text.length := by
  fun_induction feedFrom st text generalizing n with
  | case1 st => cases fed
  | case2 st c rest opened turns result =>
    rename_i ih
    obtain ⟨_, d, e, rest, same⟩ := turnThree turns
    cases same
    rw [Prod.mk.injEq, Option.map_eq_some_iff] at fed
    obtain ⟨⟨m, found, rfl⟩, later⟩ := fed
    obtain ⟨front, closed, short⟩ := ih (Prod.ext found later)
    have turnsToo : st.turn? (c :: d :: e :: rest.take m) = some opened := by
      have long : 3 ≤ [c, d, e].length := Nat.le_refl 3
      exact (turnInside st long _).trans ((turnInside st long rest).symm.trans turns)
    refine ⟨?_, closed, Nat.add_lt_add_right short 3⟩
    rw [List.take_succ_cons, List.take_succ_cons, List.take_succ_cons, feedFrom, turnsToo]
    simp only [List.drop_succ_cons, List.drop_zero] at front ⊢
    rw [front]
    rfl
  | case3 st c rest turns hash =>
    cases fed
    refine ⟨?_, hash.2.1, by simp⟩
    rw [List.take_zero, feedFrom]
  | case4 st c rest turns noHash result =>
    rename_i ih
    rw [Prod.mk.injEq, Option.map_eq_some_iff] at fed
    obtain ⟨⟨m, found, rfl⟩, later⟩ := fed
    obtain ⟨front, closed, short⟩ := ih (Prod.ext found later)
    have turnsToo : st.turn? (c :: rest.take m) = none := by
      apply turnFront (y := rest.drop m)
      rwa [List.cons_append, List.take_append_drop]
    refine ⟨?_, closed, Nat.succ_lt_succ short⟩
    rw [List.take_succ_cons, feedFrom, turnsToo]
    simp only [if_neg noHash]
    rw [front]
    rfl

end QuoteState

theorem finishCases (keep : KeepSet) (first : Bool) (body terminator : List Char)
    (later : QuoteState) (hash : Option Nat) :
    finish keep first [] body terminator later hash =
        ⟨body ++ terminator, hash.map fun _ => true, later⟩ ∨
      ∃ n, hash = some n ∧ finish keep first [] body terminator later hash =
        ⟨trimEnd (body.take n) ++ terminator, some false, later⟩ := by
  cases hash with
  | none => exact .inl rfl
  | some n =>
    rw [finish]
    split
    · exact .inl rfl
    · exact .inr ⟨n, rfl, rfl⟩

theorem finishAgain {st : QuoteState} (sound : st.Sound) {body terminator rest : List Char}
    (cut : LineCut body terminator rest) (keep : KeepSet) (first : Bool) :
    let fed := st.feedFrom body
    let here := finish keep first [] body terminator fed.2 fed.1
    ∃ left, here.text = left ++ terminator ∧
      (∀ later, (rest = [] → later = []) → LineCut left terminator later) ∧
      finish keep first [] left terminator (st.feedFrom left).2 (st.feedFrom left).1 =
        ⟨here.text, here.decision.filter id, fed.2⟩ := by
  intro fed here
  rcases finishCases keep first body terminator fed.2 fed.1 with whole | ⟨n, hash, gone⟩
  · have same : here = ⟨body ++ terminator, fed.1.map fun _ => true, fed.2⟩ := whole
    refine ⟨body, by rw [same], ?_, ?_⟩
    · exact fun later ends => ⟨cut.within, cut.ends.imp_left fun none => ⟨none.1, ends none.2⟩⟩
    · rw [same]
      refine whole.trans ?_
      cases fed.1 <;> rfl
  · have same : here = ⟨trimEnd (body.take n) ++ terminator, some false, fed.2⟩ := gone
    obtain ⟨white, parts, each⟩ := trimEndSplit (body.take n)
    have found : st.feedFrom body = (some n, fed.2) := Prod.ext hash rfl
    obtain ⟨taken, closed, -⟩ := QuoteState.feedTaken found
    rw [parts] at taken
    have trimmed := QuoteState.feedTrimmed sound each taken closed
    refine ⟨trimEnd (body.take n), by rw [same], ?_, ?_⟩
    · intro later ends
      have inside : '\n' ∉ trimEnd (body.take n) := fun member =>
        cut.within (List.mem_of_mem_take ((dropEndWhilePrefix _ _).subset member))
      refine ⟨inside, ?_⟩
      rcases cut.ends with none | feed | both
      · exact .inl ⟨none.1, ends none.2⟩
      · refine .inr (.inl ⟨feed.1, fun last => ?_⟩)
        cases trimEndLast last
      · exact .inr (.inr both)
    · rw [trimmed, same]
      rfl

theorem finishRemoval (keep : KeepSet) (first : Bool) (st : QuoteState)
    (body terminator : List Char) :
    let fed := st.feedFrom body
    let here := finish keep first [] body terminator fed.2 fed.1
    Removal (body ++ terminator) here.text (here.decision.toList.count false) := by
  intro fed here
  rcases finishCases keep first body terminator fed.2 fed.1 with whole | ⟨n, hash, gone⟩
  · have same : here = ⟨body ++ terminator, fed.1.map fun _ => true, fed.2⟩ := whole
    have none : here.decision.toList.count false = 0 := by
      rw [same]
      cases fed.1 <;> rfl
    rw [none, same]
    exact .kept _
  · have same : here = ⟨trimEnd (body.take n) ++ terminator, some false, fed.2⟩ := gone
    have found : st.feedFrom body = (some n, fed.2) := Prod.ext hash rfl
    obtain ⟨-, -, short⟩ := QuoteState.feedTaken found
    have front := (dropEndWhilePrefix isWhite (body.take n)).length_le
    rw [List.length_take] at front
    have shorter : (trimEnd (body.take n)).length < body.length := by
      rw [trimEnd]
      omega
    rw [same]
    exact (Removal.less shorter 0).append (.kept terminator)

theorem flowEmpty (keep : KeepSet) (first : Bool) (st : QuoteState) (passed : List Char) :
    flow keep first st passed [] = (passed, []) := rfl

theorem lineShorter {body terminator : List Char} (filled : body ++ terminator ≠ [])
    (rest : List Char) : rest.length < (body ++ terminator ++ rest).length := by
  have long := List.length_pos_iff.mpr filled
  simp only [List.length_append] at long ⊢
  omega

theorem cutEmpty {body terminator rest : List Char} (cut : LineCut body terminator rest)
    (empty : body ++ terminator = []) : body ++ terminator ++ rest = [] := by
  obtain ⟨rfl, rfl⟩ := List.append_eq_nil_iff.mp empty
  rcases cut.ends with ⟨-, none⟩ | ⟨bad, -⟩ | bad
  · exact none
  · cases bad
  · cases bad

theorem flowTwice (keep : KeepSet) (first : Bool) {st : QuoteState} (sound : st.Sound)
    (text : List Char) :
    flow keep first st [] (flow keep first st [] text).1 =
      ((flow keep first st [] text).1, (flow keep first st [] text).2.filter id) := by
  obtain ⟨body, terminator, rest, same, cut⟩ := lineCut text
  by_cases empty : body ++ terminator = []
  · rw [same, cutEmpty cut empty]
    rfl
  · have shorter := lineShorter empty rest
    rw [← same] at shorter
    have later := flowTwice keep false (st.feedFrom body).2.lineStartSound rest
    obtain ⟨left, leaves, cutToo, again⟩ := finishAgain sound cut keep first
    have ends : rest = [] → (flow keep false (st.feedFrom body).2.atLineStart [] rest).1 = [] := by
      intro none
      rw [none, flowEmpty]
    have state := congrArg LineResult.state again
    rw [finishState] at state
    have second := flowCut (cutToo _ ends) keep first st []
    dsimp only at second
    rw [again, state, later] at second
    rw [same, flowCut cut]
    dsimp only
    rw [leaves, second, List.filter_append, leaves]
    dsimp only
    rw [Option.toList_filter]
termination_by text.length

theorem lineScanAgain (keep : KeepSet) (text : List Char) :
    lineScan keep (lineScan keep text).1 =
      ((lineScan keep text).1, ⟨0, (lineScan keep text).2.kept⟩) := by
  have start : QuoteState.initial.Sound := QuoteState.initial.lineStartSound
  simp only [lineScanFlow, flowTwice keep true start, Tally.ofKeptDecisions]

theorem flowRemoval (keep : KeepSet) (first : Bool) (st : QuoteState) (text : List Char) :
    Removal text (flow keep first st [] text).1 ((flow keep first st [] text).2.count false) := by
  obtain ⟨body, terminator, rest, same, cut⟩ := lineCut text
  by_cases empty : body ++ terminator = []
  · rw [same, cutEmpty cut empty]
    exact .kept []
  · have shorter := lineShorter empty rest
    rw [← same] at shorter
    have later := flowRemoval keep false (st.feedFrom body).2.atLineStart rest
    rw [same, flowCut cut]
    dsimp only
    rw [List.count_append]
    exact (finishRemoval keep first st body terminator).append later
termination_by text.length

theorem lineScanRemoval (keep : KeepSet) (text : List Char) :
    Removal text (lineScan keep text).1 (lineScan keep text).2.removed := by
  rw [lineScanFlow, Tally.ofDecisionsCount]
  exact flowRemoval keep true .initial text

/- One scan settles a text: a second one removes nothing and keeps what the first kept. The texts
that a scan leaves as they are are those from which it removes nothing. -/
theorem lineScanSettles (keep : KeepSet) (text : List Char) :
    lineScan keep (lineScan keep text).1 =
        ((lineScan keep text).1, ⟨0, (lineScan keep text).2.kept⟩) ∧
      ((lineScan keep text).1 = text ↔ (lineScan keep text).2.removed = 0) :=
  ⟨lineScanAgain keep text, (lineScanRemoval keep text).same⟩

end CommentStrip.Python
