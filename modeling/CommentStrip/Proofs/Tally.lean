import CommentStrip.Tally

/-! A tally counts the decisions of each kind. -/
namespace CommentStrip.Tally

theorem recordAll (decisions : List Bool) (t : Tally) :
    decisions.foldl record t =
      ⟨t.removed + decisions.count false, t.kept + decisions.count true⟩ := by
  induction decisions generalizing t with
  | nil => rfl
  | cons kept rest ih =>
    rw [List.foldl_cons, ih]
    cases kept <;> simp [record] <;> omega

theorem ofDecisionsCount (decisions : List Bool) :
    ofDecisions decisions = ⟨decisions.count false, decisions.count true⟩ := by
  simp [ofDecisions, recordAll, zero]

theorem ofDecisionsAppend (a b : List Bool) :
    ofDecisions (a ++ b) = (ofDecisions a).merge (ofDecisions b) := by
  simp only [ofDecisionsCount, List.count_append, merge]

theorem ofDecisionsCons (kept : Bool) (rest : List Bool) :
    ofDecisions (kept :: rest) = (zero.record kept).merge (ofDecisions rest) :=
  ofDecisionsAppend [kept] rest

theorem mergeTotal (t u : Tally) : (t.merge u).total = t.total + u.total := by
  simp only [merge, total]
  omega

theorem recordMore {one two : Bool} (more : one = true → two = true) :
    (zero.record one).kept ≤ (zero.record two).kept := by
  cases one with
  | false => exact Nat.zero_le _
  | true => exact Nat.le_of_eq (by rw [more rfl])

theorem ofKeptDecisions (decisions : List Bool) :
    ofDecisions (decisions.filter id) = ⟨0, (ofDecisions decisions).kept⟩ := by
  simp only [ofDecisionsCount]
  induction decisions with
  | nil => rfl
  | cons kept rest ih => cases kept <;> simp_all

end CommentStrip.Tally
