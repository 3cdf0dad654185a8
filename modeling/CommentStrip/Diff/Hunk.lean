import CommentStrip.Diff.Slide
import CommentStrip.Text.Lines

/-! The changes between two texts by lines, in hunks with the lines around them. -/
namespace CommentStrip.Diff
open Text

/- A stretch of the old lines and the stretch of the new lines in its place, by line numbers
from zero; the stops are exclusive. -/
structure Change where
  oldStart : Nat
  oldStop : Nat
  newStart : Nat
  newStop : Nat
  deriving DecidableEq, Repr

def changesFrom {α : Type} (oldAt newAt : Nat) (pending : Option Change) :
    List (Step α) → List Change
  | [] => pending.toList
  | .same items :: rest =>
    pending.toList ++ changesFrom (oldAt + items.length) (newAt + items.length) none rest
  | .remove items :: rest =>
    let c := pending.getD ⟨oldAt, oldAt, newAt, newAt⟩
    changesFrom (oldAt + items.length) newAt (some { c with oldStop := c.oldStop + items.length })
      rest
  | .add items :: rest =>
    let c := pending.getD ⟨oldAt, oldAt, newAt, newAt⟩
    changesFrom oldAt (newAt + items.length) (some { c with newStop := c.newStop + items.length })
      rest

inductive Mark where
  | context
  | removed
  | added
  deriving DecidableEq, Repr

structure Hunk where
  oldStart : Nat
  oldLength : Nat
  newStart : Nat
  newLength : Nat
  lines : List (Mark × List Char)
  deriving DecidableEq, Repr

def contextLength : Nat := 3

def slice {α : Type} (items : List α) (start stop : Nat) : List α :=
  (items.drop start).take (stop - start)

def marked (mark : Mark) (lines : List (List Char)) : List (Mark × List Char) :=
  lines.map fun line => (mark, line)

def contextAfter (old new : List (List Char)) (c : Change) : Nat :=
  min contextLength (min (old.length - c.oldStop) (new.length - c.newStop))

def body (old new : List (List Char)) (c : Change) : List (Mark × List Char) :=
  marked .removed (slice old c.oldStart c.oldStop) ++
    marked .added (slice new c.newStart c.newStop)

/- Whether the context before `next` overlaps the context behind `c`; touching is no overlap. -/
def overlaps (old new : List (List Char)) (c next : Change) : Bool :=
  min next.oldStart (old.length - 1) - contextLength < c.oldStop + contextAfter old new c

def together (old new : List (List Char)) (c : Change) : List Change → List Change × List Change
  | [] => ([], [])
  | next :: rest =>
    if overlaps old new c next then
      let (mine, later) := together old new next rest
      (next :: mine, later)
    else ([], next :: rest)

theorem togetherShorter (old new : List (List Char)) (c : Change) (rest : List Change) :
    (together old new c rest).2.length ≤ rest.length := by
  induction rest generalizing c with
  | nil => simp [together]
  | cons next rest ih =>
    simp only [together]
    split
    · have := ih next
      simp
      omega
    · simp

def linesThrough (old new : List (List Char)) (c : Change) :
    List Change → List (Mark × List Char) × Change
  | [] => (body old new c, c)
  | next :: rest =>
    let gap := min (next.oldStart - c.oldStop) (next.newStart - c.newStop)
    let (later, last) := linesThrough old new next rest
    (body old new c ++ marked .context (slice new c.newStop (c.newStop + gap)) ++ later, last)

/- Lines are counted from one, but an empty stretch is named by the line before it. -/
def firstNumber (start length : Nat) : Nat := if 0 < length then start + 1 else start

def hunkOf (old new : List (List Char)) (first : Change) (more : List Change) : Hunk :=
  let oldStart := first.oldStart - contextLength
  let newStart := first.newStart - contextLength
  let (lines, last) := linesThrough old new first more
  let behind := contextAfter old new last
  let oldLength := last.oldStop + behind - oldStart
  let newLength := last.newStop + behind - newStart
  ⟨firstNumber oldStart oldLength, oldLength, firstNumber newStart newLength, newLength,
    marked .context (slice new newStart first.newStart) ++ lines ++
      marked .context (slice new last.newStop (last.newStop + behind))⟩

def hunksOf (old new : List (List Char)) : List Change → List Hunk
  | [] => []
  | first :: rest =>
    hunkOf old new first (together old new first rest).1 ::
      hunksOf old new (together old new first rest).2
termination_by changes => changes.length
decreasing_by
  have := togetherShorter old new first rest
  rw [List.length_cons]
  omega

def hunks (before after : List Char) : List Hunk :=
  let old := linesInclusive before
  let new := linesInclusive after
  hunksOf old new (changesFrom 0 0 none (settle (script old new)))

end CommentStrip.Diff
