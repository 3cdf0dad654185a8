import CommentStrip.Proofs.Python.TokenFlow
import CommentStrip.Proofs.Tally
import CommentStrip.Proofs.Text.Removal

/-! A second strip of a text that is Python. Where a comment stood between a lone carriage return
and a line feed, the two come together and make one line break; all other tokens are found
again, so that the text is Python still and has nothing more to take out. -/
namespace CommentStrip.Python
open Unicode Text

def SameComments (a b : List Token) : Prop :=
  ∀ keep atStart, decisions keep atStart a = decisions keep atStart b

theorem sameCommentsCons {t u : Token} {a b : List Token} (text : u.text = t.text)
    (kind : u.kind = .comment ↔ t.kind = .comment) (same : SameComments a b) :
    SameComments (t :: a) (u :: b) := by
  intro keep atStart
  simp only [decisions, kind, keeps, text, same keep false]

theorem decisionsOther {t : Token} (other : t.kind ≠ .comment) (keep : KeepSet) (atStart : Bool)
    (later : List Token) : decisions keep atStart (t :: later) = decisions keep false later := by
  rw [decisions, if_neg other]

theorem endsLineOther {kind : TokenKind} (ends : kind.endsLine) :
    kind ≠ .comment ∧ kind ≠ .whitespace := by
  rcases ends with rfl | rfl | rfl <;> simp

theorem nextContent {st : State} {offset : Nat} {c : Char} {rest : List Char} {found : Next}
    (taken : next st offset c rest = .ok found) (content : Bool) :
    ∃ other, next { st with content := content } offset c rest = .ok other ∧
      other.more = found.more ∧
      (∀ kind, ¬ kind.endsLine → (other.kind = kind ↔ found.kind = kind)) ∧
      ∃ more, other.state = { found.state with content := more } := by
  have same (kind : TokenKind) : ∀ k, ¬ k.endsLine → (kind = k ↔ kind = k) := fun _ _ => Iff.rfl
  cases cutNext taken with
  | blank first => exact ⟨_, nextCut (.blank first), rfl, same _, content, rfl⟩
  | lineBreak first =>
    refine ⟨_, nextCut (.lineBreak first), rfl, fun kind other => iff_of_false ?_ ?_, false, rfl⟩
    · rintro rfl
      exact other (breakEndsLine _)
    · rintro rfl
      exact other (breakEndsLine _)
  | comment first => exact ⟨_, nextCut (.comment first), rfl, same _, content, rfl⟩
  | continuation first behind =>
    exact ⟨_, nextCut (.continuation first behind), rfl, same _, content, rfl⟩
  | literal first closed => exact ⟨_, nextCut (.literal first closed), rfl, same _, true, rfl⟩
  | number first => exact ⟨_, nextCut (.number first), rfl, same _, true, rfl⟩
  | prefixed first word quoted closed =>
    exact ⟨_, nextCut (.prefixed first word quoted closed), rfl, same _, true, rfl⟩
  | name first word alone =>
    exact ⟨_, nextCut (.name first word alone), rfl, same _, true, rfl⟩
  | opening first => exact ⟨_, nextCut (.opening first), rfl, same _, true, rfl⟩
  | closing first innermost closes =>
    exact ⟨_, nextCut (.closing first innermost closes), rfl, same _, true, rfl⟩
  | mark first alone => exact ⟨_, nextCut (.mark first alone), rfl, same _, true, rfl⟩

theorem lexesContent {st : State} {offset : Nat} {x : List Char} {tokens : List Token}
    (lexed : Lexes st offset x tokens) (content : Bool) :
    ∃ others, Lexes { st with content := content } offset x others ∧ SameComments tokens others := by
  induction lexed generalizing content with
  | done closed => exact ⟨[], .done closed, fun _ _ => rfl⟩
  | @token st offset c s x found later taken whole rest ih =>
    obtain ⟨other, takenToo, more, kind, content, state⟩ := nextContent taken content
    obtain ⟨others, lexed, same⟩ := ih content
    rw [← state] at lexed
    exact ⟨_, .token takenToo (more.trans whole) lexed,
      sameCommentsCons rfl (kind .comment (by simp [TokenKind.endsLine])) same⟩

theorem loneBreak {st : State} {offset : Nat} {c : Char} {s x : List Char} {found : Next}
    (taken : next st offset c (s ++ x) = .ok found) (whole : found.more = s.length)
    (ends : found.kind.endsLine) (last : (c :: s).getLast? = some '\r') :
    c = '\r' ∧ s = [] ∧ found.state = { st with content := false } ∨
      c = '\\' ∧ s = ['\r'] ∧ found.state = st := by
  cases cutNext taken with
  | lineBreak first =>
    have width := breakWhole first whole
    rcases breakForms width (by simp) with same | same | ⟨same, -⟩
    · rw [same] at last
      cases last
    · rw [same] at last
      cases last
    · cases same
      exact .inl ⟨rfl, rfl, rfl⟩
  | continuation first behind =>
    subst first
    simp only at whole
    rw [whole] at behind
    rcases breakForms whole (fun none => behind (by rw [none]; rfl)) with same | same | ⟨same, -⟩
    · rw [same] at last
      cases last
    · rw [same] at last
      cases last
    · exact .inr ⟨rfl, same, rfl⟩
  | _ => simp [TokenKind.endsLine] at ends

theorem feedFirst {st : State} {offset : Nat} {x : List Char} {tokens : List Token}
    (lexed : Lexes st offset ('\n' :: x) tokens) :
    ∃ u later, tokens = u :: later ∧ u.kind ≠ .comment ∧
      Lexes { st with content := false } (offset + 1) x later := by
  generalize same : '\n' :: x = text at lexed
  cases lexed with
  | done => cases same
  | @token st offset c s rest found later taken whole lexed =>
    cases same
    have cut : next st offset '\n' (s ++ rest) = _ := nextCut (.lineBreak rfl)
    rw [taken] at cut
    cases cut
    obtain rfl := List.length_eq_zero_iff.mp whole.symm
    exact ⟨_, later, rfl, (endsLineOther (breakEndsLine st)).1, lexed⟩

theorem sameCommentsJoined {t u v : Token} {a b : List Token} (same : SameComments a (u :: b))
    (first : t.kind ≠ .comment) (second : u.kind ≠ .comment) (both : v.kind ≠ .comment) :
    SameComments (t :: a) (v :: b) := by
  intro keep atStart
  rw [decisionsOther first, decisionsOther both, same, decisionsOther second]

theorem lexesJoined {st st' : State} {offset : Nat} {c : Char} {s x y : List Char} {found : Next}
    {later : List Token} (taken : next st offset c (s ++ x) = .ok found)
    (whole : found.more = s.length) (ends : found.kind.endsLine)
    (last : (c :: s).getLast? = some '\r') (alike : st.Alike st')
    (behind : ∀ {st' : State}, found.state.Alike st' → ∀ offset', ∃ others,
      Lexes st' offset' ('\n' :: y) others ∧ SameComments later others) (offset' : Nat) :
    ∃ others, Lexes st' offset' (c :: (s ++ '\n' :: y)) others ∧
      SameComments (⟨found.kind, c :: s⟩ :: later) others := by
  have other := (endsLineOther ends).1
  rcases loneBreak taken whole ends last with ⟨rfl, rfl, state⟩ | ⟨rfl, rfl, state⟩
  · have open' : found.state.Alike { st' with content := false } := by
      rw [state]
      exact ⟨alike.1, rfl⟩
    obtain ⟨others, lexed, same⟩ := behind open' (offset' + 1)
    obtain ⟨u, rest, rfl, plain, lexed⟩ := feedFirst lexed
    have takenToo : next st' offset' '\r' (['\n'] ++ y) =
        .ok ⟨breakKind st', 1, { st' with content := false }⟩ := nextCut (.lineBreak rfl)
    have step := Lexes.token (s := ['\n']) takenToo rfl lexed
    exact ⟨_, step, sameCommentsJoined same other plain (endsLineOther (breakEndsLine st')).1⟩
  · -- The line feed by itself would end the line that the backslash continues.
    obtain ⟨others, lexed, same⟩ := behind (state ▸ alike) (offset' + 2)
    obtain ⟨u, rest, rfl, plain, lexed⟩ := feedFirst lexed
    obtain ⟨rest', lexed, sameToo⟩ := lexesContent lexed st'.content
    have takenToo : next st' offset' '\\' (['\r', '\n'] ++ y) = .ok ⟨.continuation, 2, st'⟩ :=
      nextCut (.continuation rfl (by simp [breakWidth]))
    have step := Lexes.token (s := ['\r', '\n']) takenToo rfl lexed
    have joined : SameComments later (u :: rest') := fun keep atStart => by
      rw [same, decisionsOther plain, decisionsOther plain, sameToo]
    exact ⟨_, step, sameCommentsJoined joined other plain (by simp)⟩

theorem lexesLeft {st : State} {offset : Nat} {x : List Char} {tokens : List Token}
    (lexed : Lexes st offset x tokens) (keep : KeepSet) (atStart : Bool) {st' : State}
    (alike : st.Alike st') (offset' : Nat) :
    ∃ others, Lexes st' offset' (textOf (remaining keep atStart tokens)) others ∧
      SameComments (remaining keep atStart tokens) others := by
  induction lexed generalizing atStart st' offset' with
  | done closed =>
    have same := alike.1
    simp only [closed, List.map_nil] at same
    exact ⟨[], .done (List.map_eq_nil_iff.mp same.symm), fun _ _ => rfl⟩
  | @token st offset c s x found later taken whole rest ih =>
    have goes (quiet : found.kind = .comment ∨ found.kind = .whitespace) :
        ∃ others, Lexes st' offset' (textOf (remaining keep false later)) others ∧
          SameComments (remaining keep false later) others := by
      rw [← quietState taken quiet] at alike
      exact ih false alike offset'
    have stays : ∃ others,
        Lexes st' offset' (textOf (⟨found.kind, c :: s⟩ :: remaining keep false later)) others ∧
          SameComments (⟨found.kind, c :: s⟩ :: remaining keep false later) others := by
      have whole' : textOf (⟨found.kind, c :: s⟩ :: remaining keep false later) =
          c :: (s ++ textOf (remaining keep false later)) := by simp [textOf]
      rw [whole']
      by_cases joined : found.kind.endsLine ∧ (c :: s).getLast? = some '\r' ∧
          (textOf (remaining keep false later)).head? = some '\n'
      · obtain ⟨ends, last, feed⟩ := joined
        obtain ⟨y, begins⟩ := List.head?_eq_some_iff.mp feed
        rw [begins]
        refine lexesJoined taken whole ends last alike (fun alike offset' => ?_) offset'
        rw [← begins]
        exact ih false alike offset'
      · obtain ⟨other, takenToo, kind, more, alike⟩ := nextInside taken whole
          (remainingSeam rest keep false) (fun ends last _ feed => joined ⟨ends, last, feed⟩)
          alike offset'
        obtain ⟨others, lexed, same⟩ := ih false alike (offset' + byteLength (c :: s))
        exact ⟨_, .token takenToo (more.trans whole) lexed, sameCommentsCons rfl (by simp [kind]) same⟩
    simp only [remaining]
    split
    · rename_i comment
      split
      · exact stays
      · exact goes (.inl comment)
    split
    · rename_i dropped
      exact goes (.inr dropped.1)
    · exact stays

theorem dropsNextDecides {keep : KeepSet} {tokens : List Token}
    (drops : dropsNext keep tokens = true) :
    ∃ later, decisions keep false tokens = false :: later := by
  cases tokens with
  | nil => cases drops
  | cons t later =>
    simp only [dropsNext, Bool.and_eq_true, beq_iff_eq, Bool.not_eq_true'] at drops
    exact ⟨_, by rw [decisions, if_pos drops.1, drops.2]⟩

theorem remainingWhole {keep : KeepSet} {atStart : Bool} {tokens : List Token}
    (kept : ∀ stays ∈ decisions keep atStart tokens, stays = true) :
    remaining keep atStart tokens = tokens := by
  induction tokens generalizing atStart with
  | nil => rfl
  | cons t later ih =>
    by_cases comment : t.kind = .comment
    · simp only [decisions, if_pos comment, List.forall_mem_cons] at kept
      rw [remaining, if_pos comment, if_pos kept.1, ih kept.2]
    · rw [decisionsOther comment] at kept
      have stays : ¬ (t.kind = .whitespace ∧ dropsNext keep later = true) := by
        intro dropped
        obtain ⟨more, decided⟩ := dropsNextDecides dropped.2
        have gone := kept false (by rw [decided]; exact List.mem_cons_self)
        cases gone
      rw [remaining, if_neg comment, if_neg stays, ih kept]

theorem stripTaken {keep : KeepSet} {text stripped : List Char} {tally : Tally}
    (accepted : strip keep text = .ok (stripped, tally)) :
    ∃ tokens, tokenize text = .ok tokens ∧ stripped = textOf (remaining keep true tokens) ∧
      tally = .ofDecisions (decisions keep true tokens) := by
  rw [strip] at accepted
  cases tokenized : tokenize text with
  | error e =>
    rw [tokenized] at accepted
    cases accepted
  | ok tokens =>
    rw [tokenized] at accepted
    cases accepted
    exact ⟨tokens, rfl, rfl, rfl⟩

/- What stripping leaves of a text that is Python is Python, and left again with the comments that
were kept. -/
theorem stripAgain {keep : KeepSet} {text stripped : List Char} {tally : Tally}
    (accepted : strip keep text = .ok (stripped, tally)) :
    strip keep stripped = .ok (stripped, ⟨0, tally.kept⟩) := by
  obtain ⟨tokens, tokenized, rfl, rfl⟩ := stripTaken accepted
  have start : State.initial.Alike .initial := ⟨rfl, rfl⟩
  obtain ⟨others, lexed, same⟩ := lexesLeft (tokenizeIff.mp tokenized) keep true start 0
  have again := tokenizeIff.mpr lexed
  have decided : decisions keep true others = (decisions keep true tokens).filter id := by
    rw [← same, decisionsTwice id]
  have whole : remaining keep true others = others := by
    apply remainingWhole
    rw [decided]
    intro stays member
    exact (List.mem_filter.mp member).2
  rw [strip, again, ← Tally.ofKeptDecisions, ← decided]
  simp only [Except.map, stripTokens, whole, tokenizeText again]

theorem remainingRemoval (keep : KeepSet) (atStart : Bool) {tokens : List Token}
    (filled : ∀ t ∈ tokens, t.text ≠ []) :
    Removal (textOf tokens) (textOf (remaining keep atStart tokens))
      ((decisions keep atStart tokens).count false) := by
  induction tokens generalizing atStart with
  | nil => exact .kept []
  | cons t later ih =>
    obtain ⟨here, behind⟩ := List.forall_mem_cons.mp filled
    have rest := ih false behind
    have stays : Removal (textOf (t :: later)) (textOf (t :: remaining keep false later))
        ((decisions keep false later).count false) := by
      rw [textOfCons, textOfCons, ← Nat.zero_add (List.count _ _)]
      exact (Removal.kept t.text).append rest
    by_cases comment : t.kind = .comment
    · cases kept : keeps keep atStart t with
      | true =>
        rw [remaining, decisions, if_pos comment, if_pos comment, if_pos kept, kept]
        simpa using stays
      | false =>
        rw [remainingGone comment kept, decisions, if_pos comment, kept, textOfCons,
          List.count_cons_self, Nat.add_comm]
        have shorter : ([] : List Char).length < t.text.length := List.length_pos_iff.mpr here
        exact (Removal.less shorter 0).append rest
    · rw [decisionsOther comment, remaining, if_neg comment]
      by_cases dropped : t.kind = .whitespace ∧ dropsNext keep later = true
      · obtain ⟨more, decided⟩ := dropsNextDecides dropped.2
        have shorter : (textOf (remaining keep false later)).length < (textOf (t :: later)).length := by
          have positive := List.length_pos_iff.mpr here
          have bound := rest.shorter
          rw [textOfCons, List.length_append]
          omega
        rw [if_pos dropped, decided, List.count_cons_self]
        exact .less shorter _
      · rw [if_neg dropped]
        exact stays

theorem stripRemoval {keep : KeepSet} {text stripped : List Char} {tally : Tally}
    (accepted : strip keep text = .ok (stripped, tally)) : Removal text stripped tally.removed := by
  obtain ⟨tokens, tokenized, rfl, rfl⟩ := stripTaken accepted
  have removal := remainingRemoval keep true (tokensFilled (tokenizeIff.mp tokenized))
  rw [tokenizeText tokenized] at removal
  rwa [Tally.ofDecisionsCount]

end CommentStrip.Python
