/-! How many comments a pass removed and how many it kept. -/
namespace CommentStrip

structure Tally where
  removed : Nat
  kept : Nat
  deriving DecidableEq, Repr

namespace Tally

def zero : Tally := ⟨0, 0⟩

def record (t : Tally) (keep : Bool) : Tally :=
  if keep then ⟨t.removed, t.kept + 1⟩ else ⟨t.removed + 1, t.kept⟩

def merge (t u : Tally) : Tally := ⟨t.removed + u.removed, t.kept + u.kept⟩

def total (t : Tally) : Nat := t.removed + t.kept

def ofDecisions (kept : List Bool) : Tally := kept.foldl record zero

theorem mergeAssoc (a b c : Tally) : (a.merge b).merge c = a.merge (b.merge c) := by
  simp [merge, Nat.add_assoc]

theorem mergeZero (t : Tally) : t.merge zero = t := by simp [merge, zero]

theorem zeroMerge (t : Tally) : zero.merge t = t := by simp [merge, zero]

theorem recordTotal (t : Tally) (keep : Bool) : (t.record keep).total = t.total + 1 := by
  cases keep <;> simp [record, total] <;> omega

end Tally
end CommentStrip
