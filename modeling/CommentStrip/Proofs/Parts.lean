import CommentStrip.Keep
import CommentStrip.Proofs.Tally
import CommentStrip.Text.Basic

/-! A text cut into comments and what lies between them. The cut knows no keep set. A keep set says
which comments stay, and from that follow the text that is left and the tally; a wider one keeps
every comment that a narrower one keeps. -/
namespace CommentStrip

namespace KeepSet

def signs (chars : List Char) : KeepSet :=
  ⟨chars.map fun c => ⟨String.singleton c, Pattern.occurs (.seq (.char (.single c)) .empty)⟩⟩

theorem holdsMore {keep wider : KeepSet} (more : keep.directives ⊆ wider.directives)
    {seen : List Char} (holds : keep.holds seen = true) : wider.holds seen = true := by
  obtain ⟨directive, member, occurs⟩ := List.any_eq_true.mp holds
  exact List.any_eq_true.mpr ⟨directive, more member, occurs⟩

end KeepSet

structure Comment where
  /-- White space in front that comes and goes with the comment. -/
  lead : List Char
  raw : List Char
  /-- What the keep directives get to see. -/
  seen : List Char
  /-- What is left in its place when it goes. -/
  trace : List Char
  /-- Stays whatever the directives say. -/
  exempt : Bool
  deriving DecidableEq, Repr

namespace Comment

def text (c : Comment) : List Char := c.lead ++ c.raw

def stays (keep : KeepSet) (c : Comment) : Bool := c.exempt || keep.holds c.seen

end Comment

inductive Part where
  | plain (text : List Char)
  | comment (c : Comment)
  deriving DecidableEq, Repr

namespace Part

def text : Part → List Char
  | .plain text => text
  | .comment c => c.text

def left (keep : KeepSet) : Part → List Char
  | .plain text => text
  | .comment c => if c.stays keep then c.text else c.trace

def decision? (keep : KeepSet) : Part → Option Bool
  | .plain _ => none
  | .comment c => some (c.stays keep)

end Part

/- The parts are the text, and tell what this keep set leaves of it and what it counts. -/
structure Parted (keep : KeepSet) (parts : List Part) (text out : List Char) (tally : Tally) :
    Prop where
  whole : parts.flatMap Part.text = text
  left : parts.flatMap (Part.left keep) = out
  counted : Tally.ofDecisions (parts.filterMap (Part.decision? keep)) = tally

structure Widened (parts : List Part) (keep wider : KeepSet) (one two : Tally) (out : List Char) :
    Prop where
  total : one.total = two.total
  kept : one.kept ≤ two.kept
  /-- A comment that stays with the narrower set stays with the wider one, at its place between the
  same parts. -/
  retained : ∀ front c back, parts = front ++ .comment c :: back → c.stays keep = true →
    c.stays wider = true ∧
      out = front.flatMap (Part.left wider) ++ c.text ++ back.flatMap (Part.left wider)

namespace Parted
variable {keep : KeepSet}

theorem plain (text : List Char) : Parted keep [.plain text] text text .zero :=
  ⟨by simp [Part.text], by simp [Part.left], rfl⟩

theorem comment (c : Comment) :
    Parted keep [.comment c] c.text (if c.stays keep then c.text else c.trace)
      (Tally.zero.record (c.stays keep)) :=
  ⟨by simp [Part.text], by simp [Part.left], rfl⟩

theorem nil : Parted keep [] [] [] .zero := ⟨rfl, rfl, rfl⟩

theorem append {a b : List Part} {x y s t : List Char} {m n : Tally} (front : Parted keep a x s m)
    (back : Parted keep b y t n) : Parted keep (a ++ b) (x ++ y) (s ++ t) (m.merge n) := by
  refine ⟨?_, ?_, ?_⟩
  · rw [List.flatMap_append, front.whole, back.whole]
  · rw [List.flatMap_append, front.left, back.left]
  · rw [List.filterMap_append, Tally.ofDecisionsAppend, front.counted, back.counted]

theorem kept {parts : List Part} {text out : List Char} {tally : Tally}
    (parted : Parted keep parts text out tally) {front back : List Part} {c : Comment}
    (found : parts = front ++ .comment c :: back) (stays : c.stays keep = true) :
    out = front.flatMap (Part.left keep) ++ c.text ++ back.flatMap (Part.left keep) := by
  rw [← parted.left, found]
  simp [Part.left, stays]

end Parted

section
variable {keep wider : KeepSet} (more : ∀ seen, keep.holds seen = true → wider.holds seen = true)
include more

theorem Comment.staysMore {c : Comment} (stays : c.stays keep = true) : c.stays wider = true := by
  rw [Comment.stays, Bool.or_eq_true] at stays ⊢
  exact stays.imp_right (more c.seen)

theorem decisionsMore (parts : List Part) :
    (Tally.ofDecisions (parts.filterMap (Part.decision? keep))).total =
        (Tally.ofDecisions (parts.filterMap (Part.decision? wider))).total ∧
      (Tally.ofDecisions (parts.filterMap (Part.decision? keep))).kept ≤
        (Tally.ofDecisions (parts.filterMap (Part.decision? wider))).kept := by
  induction parts with
  | nil => exact ⟨rfl, Nat.le_refl 0⟩
  | cons part rest ih =>
    cases part with
    | plain text => exact ih
    | comment c =>
      obtain ⟨total, kept⟩ := ih
      have counted : ∀ keep : KeepSet,
          Tally.ofDecisions ((Part.comment c :: rest).filterMap (Part.decision? keep)) =
            (Tally.zero.record (c.stays keep)).merge
              (Tally.ofDecisions (rest.filterMap (Part.decision? keep))) :=
        fun keep => Tally.ofDecisionsCons _ _
      rw [counted keep, counted wider]
      constructor
      · rw [Tally.mergeTotal, Tally.mergeTotal, Tally.recordTotal, Tally.recordTotal, total]
      · exact Nat.add_le_add (Tally.recordMore (Comment.staysMore more)) kept

theorem Parted.widened {parts : List Part} {text out out' : List Char} {one two : Tally}
    (parted : Parted keep parts text out one) (parted' : Parted wider parts text out' two) :
    Widened parts keep wider one two out' := by
  obtain ⟨total, kept⟩ := decisionsMore more parts
  rw [parted.counted, parted'.counted] at total kept
  refine ⟨total, kept, ?_⟩
  intro front c back found stays
  have still := Comment.staysMore more stays
  exact ⟨still, parted'.kept found still⟩

end
end CommentStrip
