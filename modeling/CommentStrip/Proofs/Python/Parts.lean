import CommentStrip.Proofs.Parts
import CommentStrip.Proofs.Python.StripAgain
import CommentStrip.Proofs.Text.Trim

/-! The comments of a Python text, by its tokens and by its lines. Neither the tokens nor the quotes
that are open at a place depend on a keep set. -/
namespace CommentStrip.Python
open Text

def tokenComment (atStart : Bool) (lead : List Char) (t : Token) : Comment :=
  ⟨lead, t.text, t.text, [], isInterpreterLine atStart t.text⟩

def tokenParts (atStart : Bool) : List Token → List Part
  | [] => []
  | t :: rest =>
    if t.kind = .comment then .comment (tokenComment atStart [] t) :: tokenParts false rest
    else match rest with
      | [] => [.plain t.text]
      | next :: later =>
        if t.kind = .whitespace ∧ next.kind = .comment then
          .comment (tokenComment false t.text next) :: tokenParts false later
        else .plain t.text :: tokenParts false (next :: later)

def lineComment (first : Bool) (line : List Char) (n : Nat) : Comment :=
  ⟨(line.take n).drop (trimEnd (line.take n)).length, line.drop n, line.drop n, [],
    decide (n = 0) && first && startsWith ['#', '!'] line⟩

def lineParts (first : Bool) (st : QuoteState) (raw : List Char) : List Part :=
  let (line, terminator) := splitTerminator raw
  match (st.feedLine line).1 with
  | none => [.plain raw]
  | some n =>
    [.plain (trimEnd (line.take n)), .comment (lineComment first line n), .plain terminator]

def linesParts (first : Bool) (st : QuoteState) : List (List Char) → List Part
  | [] => []
  | raw :: rest =>
    lineParts first st raw ++ linesParts false (st.feedLine (splitTerminator raw).1).2 rest

def parts (text : List Char) : List Part :=
  match tokenize text with
  | .ok tokens => tokenParts true tokens
  | .error _ => linesParts true .initial (linesInclusive text)

section
variable (keep : KeepSet)

theorem remainingComment (atStart : Bool) {t : Token} (comment : t.kind = .comment)
    (rest : List Token) :
    textOf (remaining keep atStart (t :: rest)) =
      (if keeps keep atStart t then t.text else []) ++ textOf (remaining keep false rest) := by
  rw [remaining, if_pos comment]
  split
  · exact textOfCons t _
  · rfl

theorem decisionsComment (atStart : Bool) {t : Token} (comment : t.kind = .comment)
    (rest : List Token) :
    decisions keep atStart (t :: rest) = keeps keep atStart t :: decisions keep false rest := by
  rw [decisions, if_pos comment]

theorem remainingLed (atStart : Bool) {t next : Token} (white : t.kind = .whitespace)
    (comment : next.kind = .comment) (later : List Token) :
    textOf (remaining keep atStart (t :: next :: later)) =
      (if keeps keep false next then t.text ++ next.text else []) ++
        textOf (remaining keep false later) := by
  have other : t.kind ≠ .comment := by simp [white]
  rw [remaining, if_neg other]
  cases stays : keeps keep false next with
  | true =>
    rw [if_neg (by simp [dropsNext, stays]), textOfCons, remainingComment keep false comment, stays]
    simp
  | false =>
    rw [if_pos ⟨white, by simp [dropsNext, comment, stays]⟩, remainingComment keep false comment,
      stays]
    rfl

theorem remainingPlain (atStart : Bool) {t : Token} {rest : List Token} (other : t.kind ≠ .comment)
    (apart : ¬ (t.kind = .whitespace ∧ dropsNext keep rest = true)) :
    textOf (remaining keep atStart (t :: rest)) = t.text ++ textOf (remaining keep false rest) := by
  rw [remaining, if_neg other, if_neg apart, textOfCons]

theorem tokensParted (atStart : Bool) (tokens : List Token) :
    Parted keep (tokenParts atStart tokens) (textOf tokens)
      (textOf (remaining keep atStart tokens)) (.ofDecisions (decisions keep atStart tokens)) := by
  fun_induction tokenParts atStart tokens with
  | case1 atStart => exact .nil
  | case2 atStart t rest comment later =>
    rw [textOfCons, remainingComment keep atStart comment, decisionsComment keep atStart comment,
      Tally.ofDecisionsCons]
    exact (Parted.comment (tokenComment atStart [] t)).append later
  | case3 atStart t other =>
    rw [textOfCons, remainingPlain keep atStart other (by simp [dropsNext]), decisionsOther other]
    exact (Parted.plain t.text).append .nil
  | case4 atStart t other next rest both later =>
    rw [textOfCons, textOfCons, ← List.append_assoc, remainingLed keep atStart both.1 both.2,
      decisionsOther other, decisionsComment keep false both.2, Tally.ofDecisionsCons]
    exact (Parted.comment (tokenComment false t.text next)).append later
  | case5 atStart t other next rest apart later =>
    have stays : ¬ (t.kind = .whitespace ∧ dropsNext keep (next :: rest) = true) := by
      simp only [dropsNext, Bool.and_eq_true, beq_iff_eq]
      exact fun both => apart ⟨both.1, both.2.1⟩
    rw [textOfCons, remainingPlain keep atStart other stays, decisionsOther other,
      ← Tally.zeroMerge (.ofDecisions _)]
    exact (Parted.plain t.text).append later

theorem lineCommentText (first : Bool) (line : List Char) (n : Nat) :
    trimEnd (line.take n) ++ (lineComment first line n).text = line := by
  have front := List.prefix_iff_eq_append.mp (dropEndWhilePrefix Unicode.isWhite (line.take n))
  rw [Comment.text, lineComment, ← List.append_assoc, trimEnd, front, List.take_append_drop]

theorem lineCommentStays (first : Bool) (line : List Char) (n : Nat) :
    (lineComment first line n).stays keep = true ↔
      (n = 0 ∧ first = true ∧ startsWith ['#', '!'] line = true) ∨
        keep.holds (line.drop n) = true := by
  simp [lineComment, Comment.stays, and_assoc]

theorem lineParted (first : Bool) (st : QuoteState) (raw : List Char) :
    Parted keep (lineParts first st raw) raw (scanLine keep first st raw).text
      (.ofDecisions (scanLine keep first st raw).decision.toList) := by
  have whole := splitTerminatorAppend raw
  simp only [lineParts, scanLine]
  generalize splitTerminator raw = cut at whole ⊢
  obtain ⟨line, terminator⟩ := cut
  dsimp only at whole ⊢
  cases (st.feedLine line).1 with
  | none => exact .plain raw
  | some n =>
    have stays := lineCommentStays keep first line n
    have parted : Parted keep _ _ _ _ := ((Parted.plain (trimEnd (line.take n))).append
      (.comment (lineComment first line n))).append (.plain terminator)
    rw [lineCommentText, whole, Tally.mergeZero, Tally.zeroMerge] at parted
    dsimp only
    split
    · rename_i kept
      rw [stays.mpr kept, if_pos rfl, lineCommentText, whole] at parted
      exact parted
    · rename_i gone
      have nothing : (lineComment first line n).trace = [] := rfl
      rw [Bool.eq_false_iff.mpr (mt stays.mp gone), if_neg Bool.false_ne_true, nothing,
        List.append_nil] at parted
      exact parted

theorem scanLineState (first : Bool) (st : QuoteState) (raw : List Char) :
    (scanLine keep first st raw).state = (st.feedLine (splitTerminator raw).1).2 := by
  simp only [scanLine]
  split
  · rfl
  · split <;> rfl

theorem linesParted (first : Bool) (st : QuoteState) (raws : List (List Char)) :
    Parted keep (linesParts first st raws) raws.flatten
      ((scanLines keep first st raws).flatMap LineResult.text)
      (.ofDecisions ((scanLines keep first st raws).filterMap LineResult.decision)) := by
  induction raws generalizing first st with
  | nil => exact .nil
  | cons raw rest ih =>
    have parted := (lineParted keep first st raw).append
      (ih false (st.feedLine (splitTerminator raw).1).2)
    rw [← Tally.ofDecisionsAppend] at parted
    rw [scanLines, scanLineState, List.filterMap_cons]
    cases decided : (scanLine keep first st raw).decision <;>
    · rw [decided] at parted
      exact parted

theorem stripParted {text stripped : List Char} {tally : Tally}
    (accepted : strip keep text = .ok (stripped, tally)) :
    Parted keep (parts text) text stripped tally := by
  obtain ⟨tokens, tokenized, rfl, rfl⟩ := stripTaken accepted
  have parted := tokensParted keep true tokens
  rw [tokenizeText tokenized] at parted
  simpa only [parts, tokenized] using parted

theorem lineScanParted {text : List Char} {fault : TokenError}
    (rejected : tokenize text = .error fault) :
    Parted keep (parts text) text (lineScan keep text).1 (lineScan keep text).2 := by
  have parted := linesParted keep true .initial (linesInclusive text)
  rw [linesInclusiveFlatten] at parted
  simpa only [parts, rejected, lineScan] using parted

end
end CommentStrip.Python
