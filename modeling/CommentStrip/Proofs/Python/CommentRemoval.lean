import CommentStrip.Proofs.Python.Relex
import CommentStrip.Proofs.Tally

/-! Stripping a text that is Python takes out comments and the white space in front of them, and
nothing else: what is left is Python with the other tokens, and has nothing more to take out. -/
namespace CommentStrip.Python
open Unicode Text

def goesAt (keep : KeepSet) (tokens : List Token) (i : Nat) : Bool :=
  tokens[i]?.any fun t => t.kind == .comment &&
    !(i == 0 && startsWith ['#', '!'] t.text) && !keep.holds t.text

/- A token stays unless it is such a comment, or white space directly in front of one. -/
def staysAt (keep : KeepSet) (tokens : List Token) (i : Nat) : Bool :=
  !goesAt keep tokens i &&
    !((tokens[i]?.any fun t => t.kind == .whitespace) && goesAt keep tokens (i + 1))

def survivors (keep : KeepSet) (tokens : List Token) : List Token :=
  (tokens.zipIdx.filter fun t => staysAt keep tokens t.2).map Prod.fst

theorem goesAtHere (keep : KeepSet) (front : List Token) (t : Token) (later : List Token) :
    goesAt keep (front ++ t :: later) front.length =
      (t.kind == .comment && !keeps keep front.isEmpty t) := by
  have start : (front.length == 0) = front.isEmpty := by cases front <;> rfl
  simp [goesAt, keeps, isInterpreterLine, start, Bool.and_assoc]

theorem goesAtNext (keep : KeepSet) (front : List Token) (t : Token) (later : List Token) :
    goesAt keep (front ++ t :: later) (front.length + 1) = dropsNext keep later := by
  cases later with
  | nil => simp [goesAt, dropsNext]
  | cons u later =>
    have here := goesAtHere keep (front ++ [t]) u later
    have behind : (front ++ [t]).isEmpty = false := by simp
    rw [behind] at here
    simpa [dropsNext] using here

theorem remainingSurvivors (keep : KeepSet) (front later : List Token) :
    ((later.zipIdx front.length).filter fun t => staysAt keep (front ++ later) t.2).map Prod.fst =
      remaining keep front.isEmpty later := by
  induction later generalizing front with
  | nil => rfl
  | cons t later ih =>
    have behind := ih (front ++ [t])
    have started : (front ++ [t]).isEmpty = false := by simp
    simp only [List.length_append, List.length_singleton, List.append_assoc,
      List.singleton_append, started] at behind
    have here : (front ++ t :: later)[front.length]? = some t := by simp
    have stays : staysAt keep (front ++ t :: later) front.length =
        (!(t.kind == .comment && !keeps keep front.isEmpty t) &&
          !(t.kind == .whitespace && dropsNext keep later)) := by
      simp only [staysAt, goesAtHere, goesAtNext, here, Option.any_some]
    rw [List.zipIdx_cons, List.filter_cons, stays]
    simp only [remaining, ← behind]
    by_cases comment : t.kind = .comment
    · cases kept : keeps keep front.isEmpty t <;> simp [comment]
    · by_cases dropped : t.kind = .whitespace ∧ dropsNext keep later = true
      · simp [dropped]
      · have solid : (t.kind == .whitespace && dropsNext keep later) = false := by
          simpa using dropped
        simp [comment, dropped, solid]

/- Stripping succeeds, the stripped text has the tokens that are neither comments that go nor white
space in front of them, and stripping it again changes nothing. -/
theorem stripLeavesOtherTokens {keep : KeepSet} {text : List Char} {tokens : List Token}
    (paired : Paired text) (accepted : tokenize text = .ok tokens) :
    ∃ stripped tally, strip keep text = .ok (stripped, tally) ∧
      tokenize stripped = .ok (survivors keep tokens) ∧
      strip keep stripped = .ok (stripped, ⟨0, tally.kept⟩) := by
  have same : survivors keep tokens = remaining keep true tokens := remainingSurvivors keep [] tokens
  have relexed : tokenize (textOf (remaining keep true tokens)) = .ok (remaining keep true tokens) :=
    tokenizeIff.mpr (lexesRemaining (tokenizeIff.mp accepted) paired keep true ⟨rfl, rfl⟩ 0)
  refine ⟨textOf (remaining keep true tokens), .ofDecisions (decisions keep true tokens), ?_, ?_, ?_⟩
  · simp [strip, accepted, stripTokens, Except.map]
  · rw [relexed, same]
  · simp only [strip, relexed, stripTokens, Except.map, remainingTwice id, decisionsTwice id,
      Tally.ofKeptDecisions]

theorem stripLeavesScript :
    Paired "#!p\r\nf(rb'#') # a\r\n".toList ∧
      tokenize "#!p\r\nf(rb'#') # a\r\n".toList =
        .ok [⟨.comment, ['#', '!', 'p']⟩, ⟨.nl, ['\r', '\n']⟩, ⟨.name, ['f']⟩, ⟨.op, ['(']⟩,
          ⟨.string, ['r', 'b', '\'', '#', '\'']⟩, ⟨.op, [')']⟩, ⟨.whitespace, [' ']⟩,
          ⟨.comment, ['#', ' ', 'a']⟩, ⟨.newline, ['\r', '\n']⟩] ∧
      ∃ stripped tally,
        strip .empty "#!p\r\nf(rb'#') # a\r\n".toList = .ok (stripped, tally) ∧
        tokenize stripped =
          .ok (survivors .empty [⟨.comment, ['#', '!', 'p']⟩, ⟨.nl, ['\r', '\n']⟩, ⟨.name, ['f']⟩,
            ⟨.op, ['(']⟩, ⟨.string, ['r', 'b', '\'', '#', '\'']⟩, ⟨.op, [')']⟩, ⟨.whitespace, [' ']⟩,
            ⟨.comment, ['#', ' ', 'a']⟩, ⟨.newline, ['\r', '\n']⟩]) ∧
        strip .empty stripped = .ok (stripped, ⟨0, tally.kept⟩) := by
  have paired : Paired "#!p\r\nf(rb'#') # a\r\n".toList := by decide
  have accepted : tokenize "#!p\r\nf(rb'#') # a\r\n".toList =
      .ok [⟨.comment, ['#', '!', 'p']⟩, ⟨.nl, ['\r', '\n']⟩, ⟨.name, ['f']⟩, ⟨.op, ['(']⟩,
        ⟨.string, ['r', 'b', '\'', '#', '\'']⟩, ⟨.op, [')']⟩, ⟨.whitespace, [' ']⟩,
        ⟨.comment, ['#', ' ', 'a']⟩, ⟨.newline, ['\r', '\n']⟩] := by with_unfolding_all rfl
  exact ⟨paired, accepted, stripLeavesOtherTokens paired accepted⟩

end CommentStrip.Python
