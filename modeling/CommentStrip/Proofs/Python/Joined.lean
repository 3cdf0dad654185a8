import CommentStrip.Proofs.Python.Relex
import CommentStrip.Proofs.Python.Shift
import CommentStrip.Proofs.Tally

/-! A text is put in front of another one. Where the first is Python and ends with a line, nothing
of it is open there, and the second is cut, refused and stripped as it is alone. -/
namespace CommentStrip.Python
open Unicode Text

def EndsWithLine (tokens : List Token) : Prop :=
  ∃ last, tokens.getLast? = some last ∧ (last.kind = .newline ∨ last.kind = .nl) ∧
    last.text.getLast? = some '\n'

theorem EndsWithLine.later {t : Token} {later : List Token} (ends : EndsWithLine (t :: later))
    (more : later ≠ []) : EndsWithLine later := by
  obtain ⟨last, final, line⟩ := ends
  refine ⟨last, ?_, line⟩
  rwa [List.getLast?_cons_of_ne_nil more] at final

theorem EndsWithLine.alone {t : Token} (ends : EndsWithLine [t]) :
    (t.kind = .newline ∨ t.kind = .nl) ∧ t.text.getLast? = some '\n' := by
  obtain ⟨last, final, line⟩ := ends
  rwa [← Option.some.inj final] at line

theorem EndsWithLine.filled {tokens : List Token} (ends : EndsWithLine tokens) : tokens ≠ [] := by
  rintro rfl
  obtain ⟨last, final, -⟩ := ends
  cases final

theorem nextFeed {st st' : State} {offset : Nat} {c : Char} {s x : List Char} {found : Next}
    (taken : next st offset c (s ++ x) = .ok found) (whole : found.more = s.length)
    (ends : found.kind = .newline ∨ found.kind = .nl) (feed : (c :: s).getLast? = some '\n')
    (closed : found.state.brackets = []) (alike : st.Alike st') (offset' : Nat)
    (y : List Char) : next st' offset' c (s ++ y) = .ok ⟨found.kind, s.length, .initial⟩ := by
  cases cutNext taken with
  | lineBreak first =>
    have width : breakWidth (c :: s ++ y) = (c :: s).length :=
      breakInside (breakWhole first whole) (by simp) (by simp [feed])
    have none : st'.brackets = [] := by simpa [show st.brackets = [] from closed] using alike.1.symm
    have moved : next st' offset' c (s ++ y) = _ := nextCut (.lineBreak first)
    rw [moved, ← alike.breakKind]
    simp only [← List.cons_append, width, List.length_cons, Nat.add_sub_cancel, none,
      State.initial]
  | _ => simp at ends

/- The tokens of the text in front are found again, wherever it begins, and behind them the
tokenizer is in its initial state. -/
theorem lexesOnward {st : State} {offset : Nat} {a : List Char} {tokens : List Token}
    (lexed : Lexes st offset a tokens) (ends : EndsWithLine tokens) {st' : State}
    (alike : st.Alike st') (offset' : Nat) (b : List Char) :
    tokensFrom st' offset' (a ++ b) =
      (tokensFrom .initial (offset' + byteLength a) b).map (tokens ++ ·) := by
  induction lexed generalizing st' offset' with
  | done => exact absurd rfl ends.filled
  | @token st offset c s x found later taken whole rest ih =>
    have size : byteLength (c :: (s ++ x)) = byteLength (c :: s) + byteLength x :=
      byteLengthAppend (c :: s) x
    rw [List.cons_append, List.append_assoc, size, ← Nat.add_assoc]
    by_cases last : later = []
    · subst last
      obtain rfl : x = [] := (lexesText rest).symm
      have closed : found.state.brackets = [] := by
        cases rest
        assumption
      obtain ⟨kind, feed⟩ := ends.alone
      rw [List.nil_append, tokensFromStep (nextFeed taken whole kind feed closed alike offset' b) rfl]
      rfl
    · have filled : x ≠ [] := by
        rintro rfl
        cases rest
        exact last rfl
      have same : (x ++ b).head? = x.head? := headInside (List.length_pos_iff.mpr filled) b
      obtain ⟨other, taken', kind, more, alike'⟩ := nextInside taken whole (.inl same)
        (fun _ _ lone => by rwa [same]) alike offset'
      rw [tokensFromStep taken' (more.trans whole), ih (ends.later last) alike', kind]
      cases tokensFrom .initial (offset' + byteLength (c :: s) + byteLength x) b <;> rfl

theorem offsetsShift (n position : Nat) (tokens : List Token) :
    offsets (n + position) tokens =
      (offsets position tokens).map fun range => (range.1, n + range.2.1, n + range.2.2) := by
  induction tokens generalizing position with
  | nil => rfl
  | cons t later ih => simp only [offsets, List.map_cons, Nat.add_assoc, ih]

theorem dropsNextAppend (keep : KeepSet) {a : List Token} (filled : a ≠ []) (b : List Token) :
    dropsNext keep (a ++ b) = dropsNext keep a := by
  cases a with
  | nil => exact absurd rfl filled
  | cons t a => rfl

theorem remainingAppend (keep : KeepSet) (atStart : Bool) {a : List Token} (ends : EndsWithLine a)
    (b : List Token) :
    remaining keep atStart (a ++ b) = remaining keep atStart a ++ remaining keep false b := by
  induction a generalizing atStart with
  | nil => exact absurd rfl ends.filled
  | cons t later ih =>
    by_cases last : later = []
    · subst last
      have solid : t.kind ≠ .comment ∧ t.kind ≠ .whitespace := by
        rcases ends.alone.1 with kind | kind <;> simp [kind]
      rw [List.singleton_append, remainingKept solid, remainingKept solid]
      rfl
    · simp only [List.cons_append, remaining, dropsNextAppend keep last,
        ih false (ends.later last)]
      split
      · split <;> rfl
      · split <;> rfl

theorem decisionsAppend (keep : KeepSet) (atStart : Bool) {a : List Token} (filled : a ≠ [])
    (b : List Token) :
    decisions keep atStart (a ++ b) = decisions keep atStart a ++ decisions keep false b := by
  induction a generalizing atStart with
  | nil => exact absurd rfl filled
  | cons t later ih =>
    have behind : decisions keep false (later ++ b) =
        decisions keep false later ++ decisions keep false b := by
      by_cases last : later = []
      · rw [last]
        rfl
      · exact ih false last
    simp only [List.cons_append, decisions, behind]
    split <;> rfl

theorem keepsAnywhere {keep : KeepSet} {t : Token} {later : List Token}
    (plain : startsWith ['#', '!'] (textOf (t :: later)) = false) :
    keeps keep true t = keeps keep false t := by
  have other : startsWith ['#', '!'] t.text = false := by
    rw [Bool.eq_false_iff] at plain ⊢
    intro starts
    exact plain (startsWithPrefix.mpr ((startsWithPrefix.mp starts).trans (List.prefix_append _ _)))
  simp [keeps, isInterpreterLine, other]

theorem stripTokensAnywhere {keep : KeepSet} {tokens : List Token}
    (plain : startsWith ['#', '!'] (textOf tokens) = false) :
    stripTokens keep tokens =
      (textOf (remaining keep false tokens), .ofDecisions (decisions keep false tokens)) := by
  cases tokens with
  | nil => rfl
  | cons t later => simp only [stripTokens, remaining, decisions, keepsAnywhere plain]

theorem stripTokensAppend (keep : KeepSet) {a b : List Token} (ends : EndsWithLine a)
    (plain : startsWith ['#', '!'] (textOf b) = false) :
    stripTokens keep (a ++ b) =
      ((stripTokens keep a).1 ++ (stripTokens keep b).1,
        (stripTokens keep a).2.merge (stripTokens keep b).2) := by
  rw [stripTokensAnywhere plain]
  simp only [stripTokens, remainingAppend keep true ends, decisionsAppend keep true ends.filled,
    textOfAppend, Tally.ofDecisionsAppend]

/- At the end of a line the tokenizer begins anew: behind a text that ends so, another one has the
tokens, the errors and the comments that it has alone. -/
theorem joinedAtLineEnd {a : List Char} {tokens : List Token} {last : Token}
    (accepted : tokenize a = .ok tokens) (final : tokens.getLast? = some last)
    (line : last.kind = .newline ∨ last.kind = .nl) (feed : last.text.getLast? = some '\n')
    (b : List Char) :
    (∀ later, tokenize b = .ok later → tokenize (a ++ b) = .ok (tokens ++ later) ∧
      offsets 0 (tokens ++ later) = offsets 0 tokens ++
        (offsets 0 later).map fun range =>
          (range.1, byteLength a + range.2.1, byteLength a + range.2.2)) ∧
    (∀ e, tokenize b = .error e → tokenize (a ++ b) = .error (e.shift (byteLength a))) ∧
    ∀ keep later, tokenize b = .ok later → startsWith ['#', '!'] b = false →
      ∃ left right, strip keep a = .ok left ∧ strip keep b = .ok right ∧
        strip keep (a ++ b) = .ok (left.1 ++ right.1, left.2.merge right.2) := by
  have ends : EndsWithLine tokens := ⟨last, final, line, feed⟩
  have joined : tokenize (a ++ b) =
      (carried (byteLength a) id (tokenize b)).map (tokens ++ ·) := by
    have onward := lexesOnward (tokenizeIff.mp accepted) ends ⟨rfl, rfl⟩ 0 b
    rwa [Nat.zero_add, tokensFromInitial (byteLength a)] at onward
  refine ⟨?_, ?_, ?_⟩
  · intro later cut
    rw [cut] at joined
    refine ⟨joined, ?_⟩
    rw [offsetsAppend, tokenizeText accepted, Nat.zero_add]
    exact congrArg _ (offsetsShift (byteLength a) 0 later)
  · intro e refused
    rw [refused] at joined
    exact joined
  · intro keep later cut plain
    rw [cut] at joined
    rw [← tokenizeText cut] at plain
    refine ⟨stripTokens keep tokens, stripTokens keep later, ?_, ?_, ?_⟩
    · rw [strip, accepted]
      rfl
    · rw [strip, cut]
      rfl
    · rw [strip, joined, ← stripTokensAppend keep ends plain]
      rfl

theorem joinedAtLineEndScript :
    tokenize "é #c\n".toList = .ok [⟨.name, ['é']⟩, ⟨.whitespace, [' ']⟩, ⟨.comment, "#c".toList⟩,
        ⟨.newline, ['\n']⟩] ∧
      tokenize ("é #c\n".toList ++ "f'\x7b(' ')\x7d' [".toList) = .error (.unclosedBrackets 17) ∧
      strip .empty ("é #c\n".toList ++ "y #d".toList) = .ok ("é\ny".toList, ⟨2, 0⟩) := by
  have accepted : tokenize "é #c\n".toList = .ok [⟨.name, ['é']⟩, ⟨.whitespace, [' ']⟩,
      ⟨.comment, "#c".toList⟩, ⟨.newline, ['\n']⟩] := by
    with_unfolding_all rfl
  have joined := joinedAtLineEnd accepted rfl (.inl rfl) rfl
  obtain ⟨left, right, front, back, both⟩ := (joined "y #d".toList).2.2 .empty
    [⟨.name, ['y']⟩, ⟨.whitespace, [' ']⟩, ⟨.comment, "#d".toList⟩] (by with_unfolding_all rfl) rfl
  have front' : strip .empty "é #c\n".toList = .ok ("é\n".toList, ⟨1, 0⟩) := by
    with_unfolding_all rfl
  have back' : strip .empty "y #d".toList = .ok ("y".toList, ⟨1, 0⟩) := by with_unfolding_all rfl
  obtain rfl := Except.ok.inj (front'.symm.trans front)
  obtain rfl := Except.ok.inj (back'.symm.trans back)
  refine ⟨accepted, ?_, both⟩
  exact (joined "f'\x7b(' ')\x7d' [".toList).2.1 (.unclosedBrackets 11) (by with_unfolding_all rfl)

end CommentStrip.Python
