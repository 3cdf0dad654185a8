import CommentStrip.Proofs.Python.LiteralStarts

/-! A token taken out of its text and read by itself. Where a token ends is told by its own
characters; the state in front of it decides only whether a bracket may close and what a line
break ends. -/
namespace CommentStrip.Python
open Text

def Token.IsBracket (t : Token) : Prop :=
  t.kind = .op ∧ ∃ c, t.text = [c] ∧ (isOpening c = true ∨ isClosing c = true)

theorem Token.noBracket {t : Token} (other : t.kind ≠ .op) : ¬ t.IsBracket :=
  fun bracket => other bracket.1

theorem markNoBracket {c : Char} (mark : isMark c = true) :
    isOpening c = false ∧ isClosing c = false := by
  simp only [isMark, Bool.not_eq_true', Bool.or_eq_false_iff] at mark
  exact ⟨mark.1.2, mark.2⟩

section
variable {c : Char} {s : List Char} {kind : TokenKind} {more : Nat} {later : State}
  (cut : Cut .initial 0 c s ⟨kind, more, later⟩) (whole : more = s.length)
include cut whole

theorem tokenizeOne :
    tokenize (c :: s) =
      (tokensFrom later (byteLength (c :: s)) []).map (⟨kind, c :: s⟩ :: ·) := by
  have taken : next .initial 0 c (s ++ []) = .ok ⟨kind, more, later⟩ := by
    rw [List.append_nil]
    exact nextCut cut
  have step := tokensFromStep taken whole
  rwa [List.append_nil, Nat.zero_add] at step

theorem tokenizeClosed (closed : later.brackets = []) :
    tokenize (c :: s) = .ok [⟨kind, c :: s⟩] := by
  rw [tokenizeOne cut whole, tokensFrom, closed]
  rfl

theorem closedIff (closed : later.brackets = []) (plain : kind ≠ .newline ∧ kind ≠ .op) :
    tokenize (c :: s) = .ok [⟨kind, c :: s⟩] ↔
      kind ≠ .newline ∧ ¬ Token.IsBracket ⟨kind, c :: s⟩ :=
  iff_of_true (tokenizeClosed cut whole closed) ⟨plain.1, Token.noBracket plain.2⟩

end

theorem loneBracketRefused {c : Char} (bracket : isOpening c = true ∨ isClosing c = true)
    (tokens : List Token) : tokenize [c] ≠ .ok tokens := by
  intro accepted
  rcases bracket with opening | closing
  · rw [tokenizeOne (.opening opening) rfl, tokensFrom] at accepted
    cases accepted
  · simp only [isClosing, Bool.or_eq_true, beq_iff_eq] at closing
    rcases closing with (rfl | rfl) | rfl <;> rw [tokenize, tokensFrom] at accepted <;>
      cases accepted

theorem bracketIff {c : Char} (bracket : isOpening c = true ∨ isClosing c = true) :
    tokenize [c] = .ok [⟨.op, [c]⟩] ↔
      TokenKind.op ≠ .newline ∧ ¬ Token.IsBracket ⟨.op, [c]⟩ :=
  iff_of_false (loneBracketRefused bracket _) fun plain => plain.2 ⟨rfl, c, rfl, bracket⟩

theorem tokenizeBreak {c : Char} {s : List Char} (first : isBreak c = true)
    (whole : breakWidth (c :: s) - 1 = s.length) : tokenize (c :: s) = .ok [⟨.nl, c :: s⟩] :=
  tokenizeClosed (.lineBreak first) whole rfl

theorem aloneIff {st : State} {offset : Nat} {c : Char} {s x : List Char} {found : Next}
    (taken : next st offset c (s ++ x) = .ok found) (whole : found.more = s.length) :
    tokenize (c :: s) = .ok [⟨found.kind, c :: s⟩] ↔
      found.kind ≠ .newline ∧ ¬ Token.IsBracket ⟨found.kind, c :: s⟩ := by
  have atEnd : AtBreak [] := nofun
  obtain ⟨other, takenToo, kind, more, -⟩ :=
    nextInside taken whole (atBreakSeam atEnd) (fun _ _ _ => nofun) ⟨rfl, rfl⟩ 0
  rw [List.append_nil] at takenToo
  rw [← kind]
  rw [← more] at whole
  cases cutNext takenToo with
  | blank first => exact closedIff (.blank first) whole rfl (by simp)
  | lineBreak first =>
    rw [tokenizeBreak first whole]
    rcases breakKindBreak st with same | same
    · exact iff_of_false (by simp [same]) (by simp [same])
    · rw [same]
      exact iff_of_true rfl ⟨by simp, Token.noBracket (by simp)⟩
  | comment first => exact closedIff (.comment first) whole rfl (by simp)
  | continuation first behind => exact closedIff (.continuation first behind) whole rfl (by simp)
  | literal first closed => exact closedIff (.literal first closed) whole rfl (by simp)
  | number first => exact closedIff (.number first) whole rfl (by simp)
  | prefixed first word quoted closed =>
    exact closedIff (.prefixed first word quoted closed) whole rfl (by simp)
  | name first word alone => exact closedIff (.name first word alone) whole rfl (by simp)
  | opening first =>
    obtain rfl := List.length_eq_zero_iff.mp whole.symm
    exact bracketIff (.inl first)
  | closing first =>
    obtain rfl := List.length_eq_zero_iff.mp whole.symm
    exact bracketIff (.inr first)
  | mark first alone =>
    obtain rfl := List.length_eq_zero_iff.mp whole.symm
    refine iff_of_true (tokenizeClosed (.mark first alone) whole rfl) ⟨by simp, ?_⟩
    rintro ⟨-, d, same, bracket⟩
    obtain rfl := List.singleton_inj.mp same
    have plain := markNoBracket first
    simp [plain] at bracket

/- Whatever surrounds them, the tokens of a text that end no logical line and are no brackets read
by themselves as what they are; the others do not. -/
theorem tokensStandAlone {text : List Char} {tokens : List Token}
    (accepted : tokenize text = .ok tokens) :
    ∀ t ∈ tokens, (tokenize t.text = .ok [t] ↔ t.kind ≠ .newline ∧ ¬ t.IsBracket) := by
  intro t member
  obtain ⟨front, back, split⟩ := List.append_of_mem member
  rw [split] at accepted
  obtain ⟨_, c, s, found, -, taken, whole, rfl⟩ :=
    arrivesTokens (tokenizeIff.mp accepted) .start rfl rfl
  exact aloneIff taken whole

theorem tokensStandAloneField :
    tokenize "(f'\x7b''\x7d'\"\"-.5e-3)\n".toList =
        .ok [⟨.op, ['(']⟩, ⟨.string, "f'\x7b''\x7d'".toList⟩, ⟨.string, ['"', '"']⟩, ⟨.op, ['-']⟩,
          ⟨.number, ".5e-3".toList⟩, ⟨.op, [')']⟩, ⟨.newline, ['\n']⟩] ∧
      tokenize "f'\x7b''\x7d'".toList = .ok [⟨.string, "f'\x7b''\x7d'".toList⟩] ∧
      tokenize ['"', '"'] = .ok [⟨.string, ['"', '"']⟩] ∧
      tokenize ".5e-3".toList = .ok [⟨.number, ".5e-3".toList⟩] ∧
      tokenize ['('] ≠ .ok [⟨.op, ['(']⟩] := by
  have accepted : tokenize "(f'\x7b''\x7d'\"\"-.5e-3)\n".toList =
      .ok [⟨.op, ['(']⟩, ⟨.string, "f'\x7b''\x7d'".toList⟩, ⟨.string, ['"', '"']⟩, ⟨.op, ['-']⟩,
        ⟨.number, ".5e-3".toList⟩, ⟨.op, [')']⟩, ⟨.newline, ['\n']⟩] := by
    with_unfolding_all rfl
  have alone := tokensStandAlone accepted
  simp only [List.forall_mem_cons] at alone
  obtain ⟨bracket, field, empty, -, number, -⟩ := alone
  refine ⟨accepted, field.mpr ⟨by simp, Token.noBracket (by simp)⟩,
    empty.mpr ⟨by simp, Token.noBracket (by simp)⟩,
    number.mpr ⟨by simp, Token.noBracket (by simp)⟩, ?_⟩
  exact fun reads => (bracket.mp reads).2 ⟨rfl, '(', rfl, .inl rfl⟩

end CommentStrip.Python
