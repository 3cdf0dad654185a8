import CommentStrip.Diff.Script

/-! A stretch that goes or comes can often stand in several places. It is slid up as far as it
goes, so that it meets its like, and then down as far as it goes. -/
namespace CommentStrip.Diff

section
variable {α : Type} [DecidableEq α]

/- A script seen from one of its steps; what comes before is written backwards. -/
structure Focus (α : Type) where
  before : List (Step α)
  here : Step α
  after : List (Step α)

def weight (steps : List (Step α)) : Nat := steps.foldr (fun s n => s.items.length + 1 + n) 0

omit [DecidableEq α] in
theorem weightCons (s : Step α) (rest : List (Step α)) :
    weight (s :: rest) = s.items.length + 1 + weight rest := rfl

omit [DecidableEq α] in
theorem weightSame (items : List α) (rest : List (Step α)) :
    weight (.same items :: rest) = items.length + 1 + weight rest := weightCons _ _

def pushSame (items : List α) : List (Step α) → List (Step α)
  | .same next :: rest => .same (items ++ next) :: rest
  | rest => .same items :: rest

def pushSameBack (items : List α) : List (Step α) → List (Step α)
  | .same previous :: rest => .same (previous ++ items) :: rest
  | rest => .same items :: rest

def isAdd : Step α → Bool
  | .add _ => true
  | _ => false

def isRemove : Step α → Bool
  | .remove _ => true
  | _ => false

def withItems : Step α → List α → Step α
  | .same _, items => .same items
  | .remove _, items => .remove items
  | .add _, items => .add items

def turnUp (n : Nat) (items : List α) : List α :=
  items.drop (items.length - n) ++ items.take (items.length - n)

def turnDown (n : Nat) (items : List α) : List α := items.drop n ++ items.take n

def slideUp (here : Step α) (before after : List (Step α)) : Focus α :=
  match before with
  | [] => ⟨[], here, after⟩
  | .same items :: rest =>
    let n := sharedEnd here.items items
    if items.isEmpty then slideUp here rest after
    else if n = 0 then ⟨.same items :: rest, here, after⟩
    else
      let moved := here.items.drop (here.items.length - n)
      let turned := withItems here (turnUp n here.items)
      if n < items.length then
        slideUp turned (.same (items.take (items.length - n)) :: rest) (pushSame moved after)
      else slideUp turned rest (pushSame moved after)
  | other :: rest =>
    if isAdd other == isAdd here then
      slideUp (withItems here (other.items ++ here.items)) rest after
    else slideUp here rest (other :: after)
termination_by weight before
decreasing_by
  · simp only [weightSame]
    omega
  · simp only [weightSame, List.length_take]
    omega
  · simp only [weightSame]
    omega
  · simp only [weightCons]
    omega
  · simp only [weightCons]
    omega

def slideDown (here : Step α) (before after : List (Step α)) : Focus α :=
  match after with
  | [] => ⟨before, here, []⟩
  | .same items :: rest =>
    let n := shared here.items items
    if items.isEmpty then slideDown here before rest
    else if n = 0 then ⟨before, here, .same items :: rest⟩
    else
      let moved := here.items.take n
      let turned := withItems here (turnDown n here.items)
      if n < items.length then
        slideDown turned (pushSameBack moved before) (.same (items.drop n) :: rest)
      else slideDown turned (pushSameBack moved before) rest
  | other :: rest =>
    if isAdd other == isAdd here then
      slideDown (withItems here (here.items ++ other.items)) before rest
    else slideDown here (other :: before) rest
termination_by weight after
decreasing_by
  · simp only [weightSame]
    omega
  · simp only [weightSame, List.length_drop]
    omega
  · simp only [weightSame]
    omega
  · simp only [weightCons]
    omega
  · simp only [weightCons]
    omega

def slideFrom (moves : Step α → Bool) : Nat → List (Step α) → List (Step α) → List (Step α)
  | 0, before, after => before.reverse ++ after
  | _ + 1, before, [] => before.reverse
  | fuel + 1, before, here :: after =>
    if moves here then
      let up := slideUp here before after
      let down := slideDown up.here up.before up.after
      slideFrom moves fuel (down.here :: down.before) down.after
    else slideFrom moves fuel (here :: before) after

def slide (moves : Step α → Bool) (steps : List (Step α)) : List (Step α) :=
  slideFrom moves (weight steps + 1) [] steps

def settle (steps : List (Step α)) : List (Step α) := slide isAdd (slide isRemove steps)

end
end CommentStrip.Diff
