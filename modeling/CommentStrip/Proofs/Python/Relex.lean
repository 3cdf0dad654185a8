import CommentStrip.Proofs.Python.Lexes
import CommentStrip.Proofs.Python.TokenSeam
import CommentStrip.Proofs.Text.Breaks
import CommentStrip.Python.Strip

/-! Taking comments out of a token list takes nothing else out: the text that remains is cut into
the tokens that remain. -/
namespace CommentStrip.Python
open Unicode Text

theorem breakKindBreak (st : State) : breakKind st = .newline ∨ breakKind st = .nl := by
  unfold breakKind
  split
  · exact .inl rfl
  · exact .inr rfl

theorem quietState {st : State} {offset : Nat} {c : Char} {rest : List Char} {found : Next}
    (taken : next st offset c rest = .ok found)
    (quiet : found.kind = .comment ∨ found.kind = .whitespace) : found.state = st := by
  cases cutNext taken with
  | blank => rfl
  | comment => rfl
  | continuation => rfl
  | lineBreak => rcases breakKindBreak st with kind | kind <;> simp [kind] at quiet
  | _ => simp at quiet

theorem atBreakSeam {x y : List Char} (atBreak : AtBreak y) : Seam x y := .inr atBreak

theorem commentEnds {st : State} {offset : Nat} {c : Char} {s x : List Char} {found : Next}
    (taken : next st offset c (s ++ x) = .ok found) (whole : found.more = s.length)
    (comment : found.kind = .comment) : AtBreak x := by
  cases cutNext taken with
  | comment => exact fun d first => by simpa using takeWhileEnds whole d first
  | lineBreak => rcases breakKindBreak st with kind | kind <;> simp [kind] at comment
  | _ => simp at comment

theorem breakFirst {st : State} {offset : Nat} {c : Char} {rest : List Char} {found : Next}
    (taken : next st offset c rest = .ok found) (first : isBreak c = true) :
    found.kind = .newline ∨ found.kind = .nl := by
  have cut : next st offset c rest = _ := nextCut (.lineBreak first)
  rw [cut] at taken
  cases taken
  exact breakKindBreak st

theorem remainingKept {keep : KeepSet} {atStart : Bool} {t : Token} {later : List Token}
    (solid : t.kind ≠ .comment ∧ t.kind ≠ .whitespace) :
    remaining keep atStart (t :: later) = t :: remaining keep false later := by
  simp [remaining, solid]

theorem remainingAtBreak {st : State} {offset : Nat} {x : List Char} {later : List Token}
    (lexed : Lexes st offset x later) (atBreak : AtBreak x) (keep : KeepSet) (atStart : Bool) :
    AtBreak (textOf (remaining keep atStart later)) := by
  cases lexed with
  | done => simp [remaining, textOf, AtBreak]
  | @token st offset c s x found later taken whole rest =>
    have kind := breakFirst taken (atBreak c rfl)
    rw [remainingKept (by rcases kind with kind | kind <;> simp [kind])]
    intro d first
    exact atBreak d (by simpa [textOf] using first)

theorem remainingGone {keep : KeepSet} {atStart : Bool} {t : Token} {later : List Token}
    (comment : t.kind = .comment) (gone : keeps keep atStart t = false) :
    remaining keep atStart (t :: later) = remaining keep false later := by
  simp [remaining, comment, gone]

theorem droppedAtBreak {st : State} {offset : Nat} {x : List Char} {later : List Token}
    (lexed : Lexes st offset x later) {keep : KeepSet} (dropped : dropsNext keep later = true) :
    AtBreak (textOf (remaining keep false later)) := by
  cases lexed with
  | done => simp [dropsNext] at dropped
  | token taken whole rest =>
    simp only [dropsNext, Bool.and_eq_true, beq_iff_eq, Bool.not_eq_true'] at dropped
    rw [remainingGone dropped.1 dropped.2]
    exact remainingAtBreak rest (commentEnds taken whole dropped.1) keep false

theorem remainingSeam {st : State} {offset : Nat} {x : List Char} {later : List Token}
    (lexed : Lexes st offset x later) (keep : KeepSet) (atStart : Bool) :
    Seam x (textOf (remaining keep atStart later)) := by
  cases lexed with
  | done => exact .inl rfl
  | @token st offset c s x found later taken whole rest =>
    have same (more : List Token) : (textOf (⟨found.kind, c :: s⟩ :: more)).head? = some c := by
      simp [textOf]
    simp only [remaining]
    split
    · rename_i comment
      split
      · exact .inl (same _)
      · exact atBreakSeam (remainingAtBreak rest (commentEnds taken whole comment) keep false)
    split
    · rename_i dropped
      exact atBreakSeam (droppedAtBreak rest dropped.2)
    · exact .inl (same _)

theorem lexesRemaining {st : State} {offset : Nat} {x : List Char} {tokens : List Token}
    (lexed : Lexes st offset x tokens) (paired : Paired x) (keep : KeepSet) (atStart : Bool)
    {st' : State} (alike : st.Alike st') (offset' : Nat) :
    Lexes st' offset' (textOf (remaining keep atStart tokens)) (remaining keep atStart tokens) := by
  induction lexed generalizing atStart st' offset' with
  | done closed =>
    have same := alike.1
    simp only [closed, List.map_nil] at same
    exact .done (List.map_eq_nil_iff.mp same.symm)
  | @token st offset c s x found later taken whole rest ih =>
    have behind : Paired x := Paired.behind (s := c :: s) paired
    have stays : Lexes st' offset' (textOf (⟨found.kind, c :: s⟩ :: remaining keep false later))
        (⟨found.kind, c :: s⟩ :: remaining keep false later) := by
      obtain ⟨other, taken', kind, more, alike'⟩ := nextInside taken whole
        (remainingSeam rest keep false)
        (fun _ last lone => absurd (Paired.across (s := c :: s) paired last) lone) alike offset'
      have step := Lexes.token taken' (more.trans whole) (ih behind false alike' _)
      rw [kind] at step
      simpa [textOf] using step
    have goes (quiet : found.kind = .comment ∨ found.kind = .whitespace) :
        Lexes st' offset' (textOf (remaining keep false later)) (remaining keep false later) := by
      rw [← quietState taken quiet] at alike
      exact ih behind false alike offset'
    simp only [remaining]
    split
    · rename_i comment
      split
      · exact stays
      · exact goes (.inl comment)
    split
    · rename_i dropped
      exact goes (.inr dropped.1)
    · exact stays

theorem dropsNextRemaining (keep : KeepSet) (tokens : List Token) :
    dropsNext keep (remaining keep false tokens) = false := by
  induction tokens with
  | nil => rfl
  | cons t later ih =>
    simp only [remaining]
    split
    · split
      · rename_i kept
        simp [dropsNext, kept]
      · exact ih
    split
    · exact ih
    · rename_i solid _
      simp [dropsNext, solid]

theorem keepsEarlier {keep : KeepSet} {a b : Bool} (earlier : a = true → b = true) {t : Token}
    (kept : keeps keep a t = true) : keeps keep b t = true := by
  cases a with
  | true => rwa [earlier rfl]
  | false =>
    simp only [keeps, isInterpreterLine, Bool.false_and, Bool.false_or] at kept
    simp [keeps, kept]

theorem remainingTwice {keep : KeepSet} {a b : Bool} (earlier : a = true → b = true)
    (tokens : List Token) :
    remaining keep b (remaining keep a tokens) = remaining keep a tokens := by
  induction tokens generalizing a b with
  | nil => rfl
  | cons t later ih =>
    simp only [remaining]
    split
    · rename_i comment
      split
      · rename_i kept
        simp only [remaining, if_pos comment, if_pos (keepsEarlier earlier kept), ih id]
      · exact ih (by simp)
    split
    · exact ih (by simp)
    · rename_i solid _
      simp [remaining, solid, dropsNextRemaining, ih id]

theorem decisionsTwice {keep : KeepSet} {a b : Bool} (earlier : a = true → b = true)
    (tokens : List Token) :
    decisions keep b (remaining keep a tokens) = (decisions keep a tokens).filter id := by
  induction tokens generalizing a b with
  | nil => rfl
  | cons t later ih =>
    simp only [remaining, decisions]
    split
    · rename_i comment
      split
      · rename_i kept
        simp only [decisions, if_pos comment, kept, keepsEarlier earlier kept, ih id,
          List.filter_cons, id_eq, if_true]
      · rename_i gone
        simp [gone, ih]
    split
    · exact ih (by simp)
    · rename_i solid _
      simp only [decisions, if_neg solid, ih id]

end CommentStrip.Python
