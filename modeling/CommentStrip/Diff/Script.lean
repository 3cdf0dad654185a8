import CommentStrip.Text.Basic

/-! How one sequence becomes another: a script of stretches that stay, go or come. The search
for a short script meets in the middle, along diagonals from both ends. -/
namespace CommentStrip.Diff

inductive Step (α : Type) where
  | same (items : List α)
  | remove (items : List α)
  | add (items : List α)
  deriving DecidableEq, Repr

namespace Step
variable {α : Type}

def items : Step α → List α
  | .same items | .remove items | .add items => items

def old : Step α → List α
  | .same items | .remove items => items
  | .add _ => []

def new : Step α → List α
  | .same items | .add items => items
  | .remove _ => []

end Step

section
variable {α : Type} [DecidableEq α]

def shared : List α → List α → Nat
  | a :: as, b :: bs => if a = b then shared as bs + 1 else 0
  | _, _ => 0

def sharedEnd (a b : List α) : Nat := shared a.reverse b.reverse

structure Frontier where
  radius : Nat
  reached : Array Nat

namespace Frontier

def start (radius : Nat) : Frontier := ⟨radius, Array.replicate (2 * radius + 1) 0⟩

def get (f : Frontier) (diagonal : Int) : Nat :=
  f.reached.getD (diagonal + f.radius).toNat 0

def set (f : Frontier) (diagonal : Int) (x : Nat) : Frontier :=
  ⟨f.radius, f.reached.setIfInBounds (diagonal + f.radius).toNat x⟩

/- Where a path with `d` edits arrives on a diagonal, before it follows equal items. -/
def enter (f : Frontier) (d diagonal : Int) : Nat :=
  if diagonal = -d ∨ (diagonal ≠ d ∧ f.get (diagonal - 1) < f.get (diagonal + 1)) then
    f.get (diagonal + 1)
  else f.get (diagonal - 1) + 1

end Frontier

structure Side (α : Type) where
  old : Array α
  new : Array α

def sharedFrom (a b : Array α) (i j : Nat) : Nat → Nat
  | 0 => 0
  | fuel + 1 =>
    match a[i]?, b[j]? with
    | some x, some y => if x = y then sharedFrom a b (i + 1) (j + 1) fuel + 1 else 0
    | _, _ => 0

namespace Side

def difference (s : Side α) : Int := (s.old.size : Int) - s.new.size

def run (s : Side α) (x : Nat) (diagonal : Int) : Nat :=
  let y := (x : Int) - diagonal
  if y < 0 then 0 else sharedFrom s.old s.new x y.toNat s.old.size

end Side

def diagonals (d : Nat) : List Int :=
  (List.range (d + 1)).map fun (i : Nat) => (d : Int) - 2 * (i : Int)

/- One more edit from one end. A path that touches one from the other end, `reach` diagonals
around the middle, ends the search with the point that `pick` makes of it. -/
def advance (s : Side α) (other : Frontier) (d : Nat) (reach : Int)
    (pick : (entry x : Nat) → (diagonal : Int) → Nat × Nat) :
    List Int → Frontier → Frontier × Option (Nat × Nat)
  | [], f => (f, none)
  | diagonal :: rest, f =>
    let entry := f.enter d diagonal
    let x := entry + s.run entry diagonal
    let f := f.set diagonal x
    let across := diagonal - s.difference
    if (across.natAbs : Int) ≤ reach ∧ s.old.size ≤ x + other.get (-across) then
      (f, some (pick entry x diagonal))
    else advance s other d reach pick rest f

/- The paths from the start are compared with those from the end when the lengths differ by an
odd number, and the other way round otherwise. -/
def meet (front back : Side α) : Nat → Nat → Frontier → Frontier → Option (Nat × Nat)
  | 0, _, _, _ => none
  | fuel + 1, d, forward, backward =>
    let odd := front.difference % 2 ≠ 0
    let (forward, found) := advance front backward d (if odd then d - 1 else -1)
      (fun entry _ diagonal => (entry, ((entry : Int) - diagonal).toNat)) (diagonals d) forward
    match found with
    | some point => some point
    | none =>
      let (backward, found) := advance back forward d (if odd then -1 else d)
        (fun _ x diagonal =>
          (back.old.size - x, back.new.size - ((x : Int) - diagonal).toNat))
        (diagonals d) backward
      match found with
      | some point => some point
      | none => meet front back fuel (d + 1) forward backward

def middle (old new : List α) : Nat × Nat :=
  let limit := (old.length + new.length + 1) / 2 + 1
  (meet ⟨old.toArray, new.toArray⟩ ⟨old.reverse.toArray, new.reverse.toArray⟩ limit 0
    (.start (limit + 1)) (.start (limit + 1))).getD (old.length, 0)

def step {α : Type} (make : List α → Step α) (items : List α) : List (Step α) :=
  if items.isEmpty then [] else [make items]

def scriptFrom : Nat → List α → List α → List (Step α)
  | 0, old, new => step .remove old ++ step .add new
  | fuel + 1, old, new =>
    let front := shared old new
    let oldRest := old.drop front
    let newRest := new.drop front
    let back := sharedEnd oldRest newRest
    let oldCore := oldRest.take (oldRest.length - back)
    let newCore := newRest.take (newRest.length - back)
    let core :=
      if oldCore.isEmpty || newCore.isEmpty then step .remove oldCore ++ step .add newCore
      else
        let (x, y) := middle oldCore newCore
        scriptFrom fuel (oldCore.take x) (newCore.take y) ++
          scriptFrom fuel (oldCore.drop x) (newCore.drop y)
    step .same (old.take front) ++ core ++ step .same (oldRest.drop oldCore.length)

def script (old new : List α) : List (Step α) := scriptFrom (old.length + new.length) old new

end
end CommentStrip.Diff
