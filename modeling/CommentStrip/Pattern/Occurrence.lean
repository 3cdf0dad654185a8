import CommentStrip.Pattern.Syntax

/-! Where a pattern occurs. `Between text p i j` says that `p` takes the text from place `i` to
place `j`; `reach` computes it for all starting places together, a set of places being one
mark per place. -/
namespace CommentStrip.Pattern

def charBefore (text : List Char) (i : Nat) : Option Char :=
  if i = 0 then none else text[i - 1]?

inductive Between (text : List Char) : Pattern → Nat → Nat → Prop where
  | empty {i} : i ≤ text.length → Between text .empty i i
  | char {set i c} : text[i]? = some c → set.mem c = true → Between text (.char set) i (i + 1)
  | look {condition i} : i ≤ text.length →
      condition.holds (charBefore text i) text[i]? = true → Between text (.look condition) i i
  | seq {p q i j k} : Between text p i j → Between text q j k → Between text (.seq p q) i k
  | left {p q i j} : Between text p i j → Between text (.alt p q) i j
  | right {p q i j} : Between text q i j → Between text (.alt p q) i j
  | stop {most p i} : i ≤ text.length → Between text (.rep 0 most p) i i
  | more {most p i j k} : Between text p i j → Between text (.rep 0 most p) j k →
      Between text (.rep 0 (most.map (· + 1)) p) i k
  | owed {least most p i j k} : Between text p i j → Between text (.rep least most p) j k →
      Between text (.rep (least + 1) (most.map (· + 1)) p) i k

def Occurs (p : Pattern) (text : List Char) : Prop := ∃ i j, Between text p i j

abbrev Marks := List Bool

def Marks.either (a b : Marks) : Marks := List.zipWith (· || ·) a b

def lookMarks (condition : Look) : Option Char → List Char → Marks
  | before, [] => [condition.holds before none]
  | before, c :: rest => condition.holds before (some c) :: lookMarks condition (some c) rest

/- At most `n` rounds, cut short once a round changes nothing. -/
def rounds (f : Marks → Marks) : Nat → Marks → Marks
  | 0, marks => marks
  | n + 1, marks => if f marks = marks then marks else rounds f n (f marks)

def reach (text : List Char) : Pattern → Marks → Marks
  | .empty, marks => marks
  | .char set, marks => false :: List.zipWith (fun c here => here && set.mem c) text marks
  | .look condition, marks => List.zipWith (· && ·) (lookMarks condition none text) marks
  | .seq p q, marks => reach text q (reach text p marks)
  | .alt p q, marks => (reach text p marks).either (reach text q marks)
  | .rep least most p, marks =>
    let owed := rounds (reach text p) least marks
    let further := match most with
      | some most => most - least
      | none => text.length + 1
    rounds (fun marks => marks.either (reach text p marks)) further owed

def occurs (p : Pattern) (text : List Char) : Bool :=
  (reach text p (List.replicate (text.length + 1) true)).any id

end CommentStrip.Pattern
